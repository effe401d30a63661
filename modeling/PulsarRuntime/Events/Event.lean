import Mathlib.Init

/-!
# The events of a descriptor

`Event` of `iomanager.hpp`; `NONE` is the empty set of events.  Both the event table and the
connections are about these two.
-/

namespace PulsarRuntime

inductive Event where
  | read
  | write
  deriving DecidableEq, Repr

instance decidableForallEvent {P : Event → Prop} [DecidablePred P] : Decidable (∀ event, P event) :=
  decidable_of_iff (P .read ∧ P .write)
    ⟨fun h event => Event.rec h.1 h.2 event, fun h => ⟨h .read, h .write⟩⟩

end PulsarRuntime
