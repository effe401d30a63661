import Mathlib.Data.Nat.Notation
import Mathlib.Logic.Relation

/-!
# Labelled machines and the runs they allow

A machine is given by its initial states, a guard and a next-state function; every choice the
environment makes is part of the action, so a state and an action determine the next state.
`ReachVia ok` collects the states reached by runs all of whose steps meet a side condition `ok`;
with the trivial condition these are the reachable states.

* `ReachVia.invariant` packages the induction over runs: a predicate that holds initially and is
  kept by every allowed step holds in every state reached;
* `Later` relates a state to the states reached from it, for statements about the rest of a run;
* `reachVia_run` turns a concrete trace into a reached state;
* `Forced` says that a part of the actions leaves no choice, as the steps of one call do;
* `countP_le_rank` bounds the steps of a kind that every run can still take.
-/

namespace PulsarRuntime

structure Machine (σ α : Type*) where
  init : σ → Prop
  enabled : σ → α → Prop
  next : σ → α → σ

namespace Machine

variable {σ α : Type*} {m : Machine σ α} {ok : σ → α → Prop}

/-- The states reached from an initial state by enabled steps that all meet `ok`. -/
inductive ReachVia (m : Machine σ α) (ok : σ → α → Prop) : σ → Prop where
  | start {s : σ} : m.init s → ReachVia m ok s
  | step {s : σ} {a : α} : ReachVia m ok s → m.enabled s a → ok s a → ReachVia m ok (m.next s a)

/-- The reachable states: no side condition on the steps. -/
def Reach (m : Machine σ α) : σ → Prop := m.ReachVia fun _ _ => True

variable {I : σ → Prop} {s : σ}

/-- **Invariant rule.**  What holds initially and is kept by every allowed step holds in every
state reached. -/
theorem ReachVia.invariant (hinit : ∀ s, m.init s → I s)
    (hstep : ∀ s a, I s → m.enabled s a → ok s a → I (m.next s a))
    (h : m.ReachVia ok s) : I s := by
  induction h with
  | start hs => exact hinit _ hs
  | step _ he hok ih => exact hstep _ _ ih he hok

theorem Reach.invariant (hinit : ∀ s, m.init s → I s)
    (hstep : ∀ s a, I s → m.enabled s a → I (m.next s a)) (h : m.Reach s) : I s :=
  ReachVia.invariant hinit (fun s a hi he _ => hstep s a hi he) h

/-! ### The rest of a run -/

/-- `t` is reached from `s` by enabled steps that all meet `ok`. -/
def Later (m : Machine σ α) (ok : σ → α → Prop) : σ → σ → Prop :=
  Relation.ReflTransGen fun s t => ∃ a, m.enabled s a ∧ ok s a ∧ t = m.next s a

/-- A predicate kept by every allowed step carries over to all later states. -/
theorem Later.invariant (hstep : ∀ s a, I s → m.enabled s a → ok s a → I (m.next s a)) {s t : σ}
    (hl : m.Later ok s t) (hs : I s) : I t := by
  induction hl with
  | refl => exact hs
  | tail _ hst ih =>
    obtain ⟨a, he, hok, rfl⟩ := hst
    exact hstep _ a ih he hok

theorem ReachVia.later {s t : σ} (h : m.ReachVia ok s) (hl : m.Later ok s t) : m.ReachVia ok t :=
  hl.invariant (I := m.ReachVia ok) (fun _ _ hs he hok => .step hs he hok) h

/-! ### Concrete traces -/

/-- The state after the actions of a trace, guards not looked at. -/
def run (m : Machine σ α) (s : σ) (trace : List α) : σ := trace.foldl m.next s

/-- Every action of the trace is enabled, and meets `ok`, in the state it is taken in. -/
def Allowed (m : Machine σ α) (ok : σ → α → Prop) : σ → List α → Prop
  | _, [] => True
  | s, a :: rest => (m.enabled s a ∧ ok s a) ∧ Allowed m ok (m.next s a) rest

instance instDecidableAllowed [∀ s a, Decidable (m.enabled s a)] [∀ s a, Decidable (ok s a)] :
    ∀ (s : σ) (trace : List α), Decidable (m.Allowed ok s trace)
  | _, [] => isTrue trivial
  | s, a :: rest =>
    have : Decidable (m.Allowed ok (m.next s a) rest) := instDecidableAllowed (m.next s a) rest
    inferInstanceAs (Decidable ((m.enabled s a ∧ ok s a) ∧ m.Allowed ok (m.next s a) rest))

variable {trace : List α}

theorem Allowed.mono {ok' : σ → α → Prop} (himp : ∀ s a, ok s a → ok' s a)
    (h : m.Allowed ok s trace) : m.Allowed ok' s trace := by
  induction trace generalizing s with
  | nil => trivial
  | cons a rest ih => exact ⟨⟨h.1.1, himp s a h.1.2⟩, ih h.2⟩

theorem reachVia_run (h : m.ReachVia ok s)
    (hall : m.Allowed ok s trace) : m.ReachVia ok (m.run s trace) := by
  induction trace generalizing s with
  | nil => exact h
  | cons a rest ih => exact ih (.step h hall.1.1 hall.1.2) hall.2

theorem later_run (hall : m.Allowed ok s trace) : m.Later ok s (m.run s trace) := by
  induction trace generalizing s with
  | nil => exact .refl
  | cons a rest ih => exact .head ⟨a, hall.1.1, hall.1.2, rfl⟩ (ih hall.2)

/-- **Ranking rule.**  A rank that no allowed step raises and every step in `P` lowers bounds the
steps in `P` of every run. -/
theorem countP_le_rank (rank : σ → ℕ) (P : α → Bool)
    (hkept : ∀ s a, I s → m.enabled s a → ok s a → I (m.next s a))
    (hrank : ∀ s a, I s → m.enabled s a → ok s a →
      rank (m.next s a) + (if P a then 1 else 0) ≤ rank s) (hs : I s)
    (hall : m.Allowed ok s trace) : rank (m.run s trace) + trace.countP P ≤ rank s := by
  induction trace generalizing s with
  | nil => exact Nat.le_refl _
  | cons a rest ih =>
    have hrest := ih (hkept s a hs hall.1.1 hall.1.2) hall.2
    have hfirst := hrank s a hs hall.1.1 hall.1.2
    rw [List.countP_cons]
    change rank (m.run (m.next s a) rest) + _ ≤ _
    omega

/-! ### Forced runs -/

/-- Every run from `s` by actions in `P` is an initial part of `trace`. -/
def Forced (m : Machine σ α) (P : α → Prop) (s : σ) (trace : List α) : Prop :=
  ∀ actions, (∀ a ∈ actions, P a) → m.Allowed (fun _ _ => True) s actions → actions <+: trace

theorem Forced.nil {P : α → Prop} {s : σ} (h : ∀ a, m.enabled s a → ¬P a) : m.Forced P s [] := by
  intro actions hP hall
  cases actions with
  | nil => exact List.prefix_rfl
  | cons a rest => exact absurd (hP a List.mem_cons_self) (h a hall.1.1)

theorem Forced.cons {P : α → Prop} {s : σ} {a : α} {trace : List α}
    (h : ∀ b, m.enabled s b → P b → b = a) (hrest : m.Forced P (m.next s a) trace) :
    m.Forced P s (a :: trace) := by
  intro actions hP hall
  cases actions with
  | nil => exact List.nil_prefix
  | cons b rest =>
    obtain rfl := h b hall.1.1 (hP b List.mem_cons_self)
    apply List.cons_prefix_cons.mpr
    exact ⟨rfl, hrest rest (fun c hc => hP c (List.mem_cons_of_mem b hc)) hall.2⟩

end Machine

end PulsarRuntime
