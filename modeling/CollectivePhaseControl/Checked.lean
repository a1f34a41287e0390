import CollectivePhaseControl.Fallible

/-! Fallible steps. A step either returns a value, raises the package's own coded
error, which a search may catch, or raises another exception, which nothing in a
search catches. Sequencing is `Except`. -/
namespace CollectivePhaseControl

export Fallible (exists_ok exists_punit bind_ok ok_bind pure_ok map_ok forM_ok mapM_ok
  forall₂_mem_left forall₂_mem_right forall₂_and forall₂_compose exists_forall₂ mapM_total
  foldlM_invariant foldlM_record_ok foldlM_record_stable)

/-- Exceptions other than the coded one. `diverges` stands for a loop that a model
with a step bound did not finish. -/
inductive Crash where
  | keyError
  | attributeError
  | stopIteration
  | valueError
  | typeError
  | validationError
  | zeroDivision
  | unsupportedAlgorithm
  | nameError
  | diverges
deriving DecidableEq, Repr

inductive Fault where
  | coded (code : String)
  | crash (exception : Crash)
deriving DecidableEq, Repr

abbrev Checked := Except Fault

def require (condition : Prop) [Decidable condition] (code : String) : Checked Unit :=
  if condition then .ok () else .error (.coded code)

/-- A lookup that raises when the value is absent. -/
def demand {α : Type*} (exception : Crash) : Option α → Checked α
  | some value => .ok value
  | none => .error (.crash exception)

@[simp] theorem require_ok {condition : Prop} [Decidable condition] {code : String} {u : Unit} :
    require condition code = .ok u ↔ condition := by
  unfold require
  split <;> simp [*]

@[simp] theorem demand_ok {α : Type*} {exception : Crash} {o : Option α} {value : α} :
    demand exception o = .ok value ↔ o = some value := by
  cases o <;> simp [demand]

/-- A computation that does not run out of its step bound. -/
def Halts {α : Type} (x : Checked α) : Prop := x ≠ .error (.crash .diverges)

section halts
variable {α β : Type}

theorem halts_ok (a : α) : Halts (.ok a) := nofun

theorem halts_coded (code : String) : Halts (.error (.coded code) : Checked α) := nofun

theorem halts_crash {exception : Crash} (other : exception ≠ .diverges) :
    Halts (.error (.crash exception) : Checked α) := by
  rintro ⟨⟩
  exact other rfl

theorem halts_bind {x : Checked α} {f : α → Checked β} (first : Halts x)
    (rest : ∀ a, x = .ok a → Halts (f a)) : Halts (x >>= f) := by
  cases h : x with
  | ok a => exact rest a h
  | error fault =>
    rw [h] at first
    rintro ⟨⟩
    exact first rfl

theorem halts_require {condition : Prop} [Decidable condition] {code : String} :
    Halts (require condition code) := by
  unfold require
  split
  · exact halts_ok _
  · exact halts_coded _

theorem halts_demand {exception : Crash} (other : exception ≠ .diverges) (o : Option α) :
    Halts (demand exception o) := by
  cases o with
  | some a => exact halts_ok a
  | none => exact halts_crash other

theorem halts_forM {f : α → Checked PUnit} (each : ∀ a, Halts (f a)) (xs : List α) :
    Halts (xs.forM f) := by
  induction xs with
  | nil => exact halts_ok _
  | cons x xs ih => exact halts_bind (each x) fun _ _ => ih

end halts

end CollectivePhaseControl
