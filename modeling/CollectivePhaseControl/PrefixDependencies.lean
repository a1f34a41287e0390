import CollectivePhaseControl.PrefixIdentity

/-! What the events of the occurrence prefix depend on. Each is recorded at a reachable marking
at which its transformation can fire, and the producers of the input and catalyst conditions it
has there are its causes. -/
namespace CollectivePhaseControl
namespace Prefix

open Histories

section dependencies
variable (network : Network) (initial : Finset Identifier)

variable {network initial} {s : Exploration} {markings : List Marking}
  {nodes words : List (List Identifier)}

end dependencies

namespace DependencySample
open NetworkSample IdentitySample

def catalysed (id source product catalyst : Identifier) : Identifier × TransformationAttestation :=
  (id, ⟨⟨"tenant", "workspace", id, ⟨0, some 0⟩⟩, ∅, ⟨id, .ofList [(source, Rational.ofNat 1)],
    .ofList [(product, Rational.ofNat 1)], [[catalyst]], [], false, [], [],
    ⟨⟨0, some 0⟩, ⟨100, some 0⟩, none⟩⟩⟩)

def staged : Network :=
  .ofList [exchange "t1" "g" "a", exchange "t2" "a" "b", catalysed "t3" "c" "d" "b"]

end DependencySample

end Prefix
end CollectivePhaseControl
