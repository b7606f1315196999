import Patchbay.Proofs.Settings.Layer
import Patchbay.Settings.File

/-!
A document laid over the default settings. No default is an object, so each setting is read by
itself: from what the document says under its name, or, where it says nothing, as the default.
-/

namespace Patchbay

namespace Settings

open Json (nonNull)

variable {α : Type} [Readable α] {above : Fields Json} {default : α} {key : String} {v : Json}

/-- A setting as a document gives it. -/
def given (default : α) (said : Option Json) : Option α :=
  match nonNull said with
  | none => some default
  | some v => read? v

theorem write_defaults : write defaults = .obj
    [("apiIgnoreEvts", .arr []), ("emitTimeoutMs", .null), ("origin", .str "http://localhost:3000"),
      ("sockets", .arr []), ("warnings", .bool true)] := rfl

/-- Over a member that is no object stands what is said above it. -/
theorem layered_member {below : Fields Json} (habove : above.Sorted)
    (hget : below.get? key = some v) (hv : v.members? = none) :
    Fields.get? key (Json.layerMembers below above) = some ((nonNull (above.get? key)).getD v) := by
  rw [Json.get?_layerMembers below habove, hget]
  cases nonNull (above.get? key) with
  | none => rfl
  | some said => exact congrArg some (Json.layer_over_no_object hv said)

theorem defaulted_layered {slots : List (Option Json)} {i : Nat} (said : Option Json)
    (hread : read? v = some default) (hslot : slots.getD i none = some ((nonNull said).getD v)) :
    Record.defaulted default slots i = given default said := by
  rw [Record.defaulted, hslot, given]
  cases nonNull said with
  | none => exact hread
  | some said => rfl

/-- Over the defaults each setting is read by itself. -/
theorem ofLayer?_obj (habove : above.Sorted) : ofLayer? (.obj above) = do
    return {
      sockets := ← given [] (above.get? "sockets")
      warnings := ← given true (above.get? "warnings")
      ignoredEvents := ← given [] (above.get? "apiIgnoreEvts")
      emitTimeout := ← given none (above.get? "emitTimeoutMs")
      origin := ← given "http://localhost:3000" (above.get? "origin") } := by
  have hslots : Record.slots? ["sockets", "warnings", "apiIgnoreEvts", "emitTimeoutMs", "origin"]
      ((write defaults).layer (.obj above)) = some [
        some ((nonNull (above.get? "sockets")).getD (.arr [])),
        some ((nonNull (above.get? "warnings")).getD (.bool true)),
        some ((nonNull (above.get? "apiIgnoreEvts")).getD (.arr [])),
        some ((nonNull (above.get? "emitTimeoutMs")).getD .null),
        some ((nonNull (above.get? "origin")).getD (.str "http://localhost:3000"))] := by
    rw [write_defaults]
    simp only [Json.layer, Record.slots?, List.map_cons, List.map_nil, Option.some.injEq,
      List.cons.injEq, and_true]
    refine ⟨?_, ?_, ?_, ?_, ?_⟩ <;> exact layered_member habove (by simp [Fields.get?]) rfl
  simp only [ofLayer?, read?]
  rw [hslots, Option.bind_eq_bind, Option.bind_some,
    defaulted_layered (above.get? "sockets") rfl rfl,
    defaulted_layered (above.get? "warnings") rfl rfl,
    defaulted_layered (above.get? "apiIgnoreEvts") rfl rfl,
    defaulted_layered (above.get? "emitTimeoutMs") rfl rfl,
    defaulted_layered (above.get? "origin") rfl rfl]

end Settings

end Patchbay
