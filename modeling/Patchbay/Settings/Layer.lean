import Patchbay.Json.Basic

/-! Layering one document over another: objects merge member by member, a null member
leaves what is below it, and anything else replaces it. -/

namespace Patchbay.Json

mutual

def layer (base : Json) : Json → Json
  | .obj upper =>
    match base with
    | .obj members => .obj (layerMembers members upper)
    | _ => .obj upper
  | v => v

def layerMembers (base : Fields Json) : List (String × Json) → Fields Json
  | [] => base
  | (key, v) :: rest =>
    match v with
    | .null => layerMembers base rest
    | _ =>
      let merged := match Fields.get? key base with
        | some old => layer old v
        | none => v
      layerMembers (Fields.insert key merged base) rest

end

end Patchbay.Json
