import Patchbay.Proofs.Answers.Asks

/-!
What comes to the cell of an emit, traced back. Its answer came to its responder before, from the
reply of the server that was asked for it, or later by the responder that the server kept.
-/

namespace Patchbay

namespace Ask

/-- The server that was asked for the emit has run, with this reply. -/
def Served (a : Ask) (log : List Moment) (reply : PeerReply) : Prop :=
  ∃ m ∈ log, ∃ r, a.responder = some r ∧ m.job = .serve a.serial a.event a.payload (some r) ∧
    m.world.reply? a.serial a.event a.payload = some reply

/-- The server that was asked for the emit has responded with this value between `b` and `u`: its
reply has it, or its responder was kept and was used for it. -/
inductive Responded (a : Ask) (b : World) (log : List Moment) (u : World) (v : Json) : Prop
  | reply {reply : PeerReply} (hserved : a.Served log reply) (hanswer : reply.answer = .value v)
  | held {before after : List Moment} {x : World} {reply : PeerReply} {r i : Nat} (ticket : Nat)
      (hlog : log = before ++ after) (hbefore : World.Run b before x)
      (hserved : a.Served before reply) (hhold : reply.answer = .hold)
      (hr : a.responder = some r) (hheld : x.held[i]? = some (some r))
      (hafter : World.Run (x.perform ticket (.answer i v)).1 after u)

/-- Whoever speaks of the emit's cells is one of its own, and knows what it is there for. -/
def Allows (a : Ask) (log : List Moment) : Mention → Prop
  | .client cell => a.responder ≠ some cell
  | .called cell | .awaited cell => cell ≠ a.cell ∧ a.responder ≠ some cell
  | .forward cell n key =>
    cell ≠ a.cell ∧ (a.responder = some cell ↔ n = a.serial ∧ key = a.key)
  | .asked cell n event payload => cell ≠ a.cell ∧
    (a.responder = some cell → n = a.serial ∧ event = a.event ∧ payload = a.payload)
  | .replied cell _ reply => cell ≠ a.cell ∧ (a.responder = some cell → a.Served log reply)
  | .held cell => cell ≠ a.cell ∧
    (a.responder = some cell → ∃ reply, a.Served log reply ∧ reply.answer = .hold)
  | .expected cell n key =>
    a.responder ≠ some cell ∧ (cell = a.cell ↔ n = a.serial ∧ key = a.key)

variable {a : Ask} {log log' more : List Moment} {b u x : World} {m : Mention} {v : Json}
  {reply : PeerReply}

theorem Served.mono (h : a.Served log reply) (hlog : log ⊆ log') : a.Served log' reply := by
  obtain ⟨m, hm, hrest⟩ := h
  exact ⟨m, hlog hm, hrest⟩

theorem Responded.later (h : a.Responded b log u v) (hrun : World.Run u more x) :
    a.Responded b (log ++ more) x v := by
  cases h with
  | reply hserved hanswer => exact .reply (hserved.mono (List.subset_append_left _ _)) hanswer
  | held ticket hlog hbefore hserved hhold hr hheld hafter =>
    refine .held ticket ?_ hbefore hserved hhold hr hheld (hafter.trans hrun)
    rw [hlog, List.append_assoc]

/-- Who responds was asked. -/
theorem Responded.asked (h : a.Responded b log u v) : ∃ r, a.responder = some r := by
  cases h with
  | reply hserved =>
    obtain ⟨m, hm, r, hr, hrest⟩ := hserved
    exact ⟨r, hr⟩
  | held _ _ _ _ _ hr => exact ⟨_, hr⟩

theorem Allows.mono (h : a.Allows log m) (hlog : log ⊆ log') : a.Allows log' m := by
  cases m with
  | replied cell n reply => exact ⟨h.1, fun hr => (h.2 hr).mono hlog⟩
  | held cell =>
    refine ⟨h.1, fun hr => ?_⟩
    obtain ⟨reply, hserved, hhold⟩ := h.2 hr
    exact ⟨reply, hserved.mono hlog, hhold⟩
  | _ => exact h

/-- What is said of other cells and other emits is allowed. -/
theorem Apart.allows (h : a.Apart m) : a.Allows log m := by
  obtain ⟨hcell, hresponder, hemit⟩ := h
  cases m with
  | client cell => exact hresponder
  | forward cell n key =>
    exact ⟨hcell, fun hr => absurd hr hresponder, fun heq => absurd heq (hemit n key rfl)⟩
  | expected cell n key =>
    exact ⟨hresponder, fun heq => absurd heq hcell, fun heq => absurd heq (hemit n key rfl)⟩
  | called cell => exact ⟨hcell, hresponder⟩
  | awaited cell => exact ⟨hcell, hresponder⟩
  | _ => exact ⟨hcell, fun hr => absurd hr hresponder⟩

/-- A mention that comes with the emit is allowed. -/
theorem Speaks.allows (h : a.Speaks m) (hne : a.responder ≠ some a.cell) : a.Allows log m := by
  have hother {cell : CellId} (hr : a.responder = some cell) : cell ≠ a.cell := by
    rintro rfl
    exact hne hr
  cases m with
  | client cell =>
    obtain rfl : cell = a.cell := h
    exact hne
  | expected cell n key =>
    obtain ⟨rfl, rfl, rfl⟩ := h
    exact ⟨hne, by simp⟩
  | forward cell n key =>
    obtain ⟨hr, rfl, rfl⟩ := h
    exact ⟨hother hr, by simp [hr]⟩
  | asked cell n event payload => exact ⟨hother h.1, fun _ => h.2⟩
  | _ => exact h.elim

end Ask

namespace World

variable {a a' : Ask} {b u w w' : World} {log log' : List Moment} {m : Mention}

/-! Bounds -/

theorem Bounded.later (h : w.Bounded) (hgrows : Grows w u)
    (hm : ∀ m, u.Mentions m → w.Mentions m ∨
      m.cell < u.cells.length ∧ ∀ n key, m.emit? = some (n, key) → key < u.nextKey n) :
      u.Bounded where
  cell m hu := by
    rcases hm m hu with hold | hnew
    · exact Nat.lt_of_lt_of_le (h.cell m hold) hgrows.cells
    · exact hnew.1
  emit m n key hu hemit := by
    rcases hm m hu with hold | hnew
    · exact Nat.lt_of_lt_of_le (h.emit m n key hold hemit) (hgrows.nextKey n)
    · exact hnew.2 n key hemit

/-- Anything may be done about the cells there are. -/
def bounds (u : World) : Permit where
  mentions m := m.cell < u.cells.length ∧ m.emit? = none
  puts _ _ := True
  settles _ _ _ := True

theorem Bounded.covers (h : w.Bounded) (hgrows : Grows w u) : Covers u.bounds w u where
  fresh _ _ hlt := ⟨⟨⟨hlt, rfl⟩, ⟨hlt, rfl⟩, hlt, rfl⟩, fun _ => trivial⟩
  awaited _ _ _ := trivial
  called _ _ _ := trivial
  held cell n reply hsaid _ :=
    ⟨Nat.lt_of_lt_of_le (h.cell (.replied cell n reply) hsaid) hgrows.cells, rfl⟩
  replied _ _ _ _ _ _ := trivial

theorem Bounded.of_bounds (h : w.Bounded) (hgrows : Grows w u)
    (hm : ∀ m, u.Mentions m → w.Mentions m ∨ u.bounds.mentions m) : u.Bounded := by
  refine h.later hgrows fun m hu => (hm m hu).imp_right ?_
  rintro ⟨hcell, hemit⟩
  refine ⟨hcell, fun n key hsome => ?_⟩
  rw [hemit] at hsome
  cases hsome

theorem Asks.grows (h : Asks a w u) : Grows w u := by
  have hask := (ask_makes w a).grows
  cases h <;> exact ⟨hask.cells, hask.nextKey⟩

theorem Bounded.asks (h : w.Bounded) (hbegins : Begins a w) (hasks : Asks a w u) : u.Bounded := by
  refine h.later hasks.grows fun m hm => (hasks.mentions hbegins hm).imp_right fun hsaid => ?_
  obtain ⟨hcell, hresponder⟩ := hasks.cell_lt hbegins
  have hkey := hasks.key_lt hbegins
  cases m with
  | client cell =>
    obtain rfl : cell = a.cell := hsaid
    exact ⟨hcell, nofun⟩
  | expected cell n key =>
    obtain ⟨rfl, rfl, rfl⟩ := hsaid
    refine ⟨hcell, ?_⟩
    rintro n key ⟨⟩
    exact hkey
  | forward cell n key =>
    obtain ⟨hr, rfl, rfl⟩ := hsaid
    refine ⟨hresponder _ hr, ?_⟩
    rintro n key ⟨⟩
    exact hkey
  | asked cell n event payload => exact ⟨hresponder _ hsaid.1, nofun⟩
  | _ => exact hsaid.elim

theorem Bounded.begin {task : Task} {rest : List Task} (h : w.Bounded)
    (hready : w.ready = task :: rest) : (w.begin task rest).Bounded where
  cell m hm := h.cell m (mentions_begin hready hm)
  emit m n key hm hemit := h.emit m n key (mentions_begin hready hm) hemit

/-- What the running task does adds to what was said before it ran. -/
theorem mentions_after {g : Permit} {task : Task} {rest : List Task}
    (hready : w.ready = task :: rest)
    (h : Does (Change.Within g) (Continues g task.job) (w.begin task rest) u) (hm : u.Mentions m) :
    w.Mentions m ∨ g.mentions m := by
  rcases h.mentions hm with hold | hsaid | hnew
  · exact .inl (mentions_begin hready hold)
  · exact .inl (mentions_running hready hsaid)
  · exact .inr hnew

theorem Run.bounded (h : Run w log u) (h₀ : w.Bounded) : u.Bounded := by
  induction h with
  | start => exact h₀
  | @step log w task rest _ hready ih =>
    have hgrows := (Run.start.step hready).grows
    have hserved (n : Nat) (event : String) (payload : Json) (cell : CellId) (reply : PeerReply)
        (hjob : task.job = .serve n event payload (some cell))
        (_ : (w.begin task rest).reply? n event payload = some reply) :
        (bounds ((w.begin task rest).exec task.job)).mentions (.replied cell n reply) := by
      have hsaid : w.Mentions (.asked cell n event payload) :=
        mentions_running hready (by rw [hjob]; rfl)
      exact ⟨Nat.lt_of_lt_of_le (ih.cell (.asked cell n event payload) hsaid) hgrows.cells, rfl⟩
    rcases exec_within hready (ih.covers hgrows) hserved fun _ _ _ _ _ _ => trivial with
      ⟨a, hbegins, hasks⟩ | hdoes
    · exact (ih.begin hready).asks hbegins hasks
    · exact ih.of_bounds hgrows fun m hm => mentions_after hready hdoes hm
  | @command log w _ ticket c hc ih =>
    have hgrows : Grows w (w.perform ticket c).1 := (Run.start.command ticket hc).grows
    rcases perform_within w ticket hc (ih.covers hgrows) fun _ _ _ _ _ => trivial with
      ⟨a, hbegins, hasks⟩ | hmakes
    · exact ih.asks hbegins hasks
    · exact ih.of_bounds hgrows fun m hm => hmakes.mentions hm
  | @pass log w _ t _ ih =>
    have hsame {m : Mention} (hm : Mentions { w with now := t } m) : w.Mentions m :=
      hm.of_jobs (fun _ hjob => hjob) rfl rfl
    exact ⟨fun m hm => ih.cell m (hsame hm), fun m n key hm => ih.emit m n key (hsame hm)⟩
  | @wake log w _ ih =>
    have hsame {m : Mention} (hm : w.wakeDue.Mentions m) : w.Mentions m :=
      (wakeDue_woken w).mentions hm
    exact ⟨fun m hm => ih.cell m (hsame hm), fun m n key hm => ih.emit m n key (hsame hm)⟩

/-! From an emit's turn on -/

theorem Makes.answered {P : Change → Prop} {cell : CellId} {v : Json} (h : Makes P w w')
    (hP : ∀ x ch, P ch → ¬ ch.Puts x cell v) (hlt : cell < w.cells.length)
    (hanswered : w'.cell cell = .answered v) : w.cell cell = .answered v := by
  induction h with
  | nothing => exact hanswered
  | @more x ch hbefore hch ih =>
    have hlt' : cell < x.cells.length := Nat.lt_of_lt_of_le hlt hbefore.grows.cells
    rcases cell_apply x ch hlt' with hsame | ⟨-, habandoned | ⟨v', hv', hputs⟩⟩
    · exact ih (hsame ▸ hanswered)
    · exact nomatch habandoned.symm.trans hanswered
    · obtain rfl := Cell.answered.inj (hv'.symm.trans hanswered)
      exact absurd hputs (hP x ch hch)

/-- Another emit comes with cells and a number of its own. -/
theorem Begins.apart_of_speaks (hbegins : Begins a' w) (hcell : a.cell < w.cells.length)
    (hresponder : ∀ r, a.responder = some r → r < w.cells.length)
    (hkey : a.key < w.nextKey a.serial) (hm : a'.Speaks m) : a.Apart m := by
  have hnew : w.cells.length ≤ m.cell := by
    have hr {r : CellId} (h : a'.responder = some r) : w.cells.length ≤ r := by
      rw [hbegins.responder r h]
      exact Nat.le_succ _
    cases m with
    | client cell | expected cell =>
      first
        | obtain rfl : cell = a'.cell := hm
          exact Nat.le_of_eq hbegins.cell.symm
        | obtain ⟨rfl, -⟩ := hm
          exact Nat.le_of_eq hbegins.cell.symm
    | forward cell | asked cell => exact hr hm.1
    | _ => exact hm.elim
  refine ⟨?_, ?_, ?_⟩
  · exact fun heq => Nat.lt_irrefl _ (Nat.lt_of_le_of_lt (heq ▸ hnew) hcell)
  · exact fun hr => Nat.lt_irrefl _ (Nat.lt_of_le_of_lt hnew (hresponder _ hr))
  · rintro n key hemit ⟨rfl, rfl⟩
    have hown : a.serial = a'.serial ∧ a.key = a'.key := by
      cases m with
      | expected => cases hemit; exact hm.2
      | forward => cases hemit; exact hm.2
      | _ => cases hemit
    rw [hown.1, hown.2, hbegins.key] at hkey
    exact Nat.lt_irrefl _ hkey

/-- An emit that went out: who speaks of it, and what came to its cells. -/
structure Follows (a : Ask) (log : List Moment) (responded : Json → Prop) (w : World) : Prop where
  cell_lt : a.cell < w.cells.length
  responder_lt : ∀ r, a.responder = some r → r < w.cells.length
  key_lt : a.key < w.nextKey a.serial
  said : ∀ m, w.Mentions m → a.Allows log m
  value : ∀ cell v, cell = a.cell ∨ a.responder = some cell →
    w.cell cell = .answered v → responded v

/-- All that may be done without touching the emit, and what is done for it. -/
def Follows.permit (a : Ask) (log : List Moment) (responded : Json → Prop) : Permit where
  mentions m := a.Allows log m ∧ m ≠ .client a.cell
  puts cell v := cell ≠ a.cell ∧ (a.responder = some cell → responded v)
  settles n key v := n = a.serial → key = a.key → responded v

namespace Follows

variable {responded responded' : Json → Prop}

theorem mono (h : Follows a log responded w) (hlog : log ⊆ log')
    (hresponded : ∀ v, responded v → responded' v) : Follows a log' responded' w where
  cell_lt := h.cell_lt
  responder_lt := h.responder_lt
  key_lt := h.key_lt
  said m hm := (h.said m hm).mono hlog
  value cell v hcell hanswered := hresponded v (h.value cell v hcell hanswered)

/-- What is done of an emit's own comes from who responded to it. -/
theorem of_puts {ch : Change} {cell : CellId} {v : Json} (h : Follows a log responded w)
    (hch : ch.Within (permit a log responded)) (hcell : cell = a.cell ∨ a.responder = some cell)
    (hputs : ch.Puts w cell v) : responded v := by
  cases ch with
  | answer id v' =>
    obtain ⟨rfl, rfl⟩ := hputs
    exact hch.2 (hcell.resolve_left hch.1)
  | settle n key v' =>
    obtain ⟨hlookup, rfl⟩ := hputs
    obtain ⟨hresponder, hown⟩ := h.said _ (.expected (mem_of_lookup hlookup))
    obtain ⟨hserial, hkey⟩ := hown.1 (hcell.resolve_right hresponder)
    exact hch hserial hkey
  | _ => exact hputs.elim

theorem apply (h : Follows a log responded w) {ch : Change}
    (hch : ch.Within (permit a log responded)) : Follows a log responded (w.apply ch) where
  cell_lt := Nat.lt_of_lt_of_le h.cell_lt (cells_length_apply w ch)
  responder_lt r hr := Nat.lt_of_lt_of_le (h.responder_lt r hr) (cells_length_apply w ch)
  key_lt := Nat.lt_of_lt_of_le h.key_lt (nextKey_apply w ch _)
  said m hm := by
    rcases (Makes.one ch hch).mentions hm with hold | hnew
    · exact h.said m hold
    · exact hnew.1
  value cell v hcell hanswered := by
    have hlt : cell < w.cells.length := by
      rcases hcell with rfl | hr
      · exact h.cell_lt
      · exact h.responder_lt cell hr
    rcases cell_apply w ch hlt with hsame | ⟨-, habandoned | ⟨v', hv', hputs⟩⟩
    · exact h.value cell v hcell (hsame ▸ hanswered)
    · exact nomatch habandoned.symm.trans hanswered
    · obtain rfl := Cell.answered.inj (hv'.symm.trans hanswered)
      exact h.of_puts hch hcell hputs

theorem makes (h : Follows a log responded w)
    (hmakes : Makes (Change.Within (permit a log responded)) w w') :
    Follows a log responded w' :=
  hmakes.keeps (fun _ _ hch hw => hw.apply hch) h

/-- The tasks around may come and go, as long as who speaks of the emit is allowed to. -/
theorem of_same (h : Follows a log responded w) (hcells : w'.cells = w.cells)
    (hconnections : w'.connections = w.connections)
    (hm : ∀ m, w'.Mentions m → w.Mentions m ∨ a.Allows log m) : Follows a log responded w' where
  cell_lt := hcells ▸ h.cell_lt
  responder_lt := hcells ▸ h.responder_lt
  key_lt := by
    rw [nextKey, connection?_congr hconnections]
    exact h.key_lt
  said m hw := (hm m hw).elim (h.said m) id
  value cell v hcell hanswered := by
    refine h.value cell v hcell ?_
    rwa [World.cell, hcells] at hanswered

theorem idle (h : Follows a log responded w) (hcells : w'.cells = w.cells)
    (hconnections : w'.connections = w.connections) (hm : ∀ m, w'.Mentions m → w.Mentions m) :
    Follows a log responded w' :=
  h.of_same hcells hconnections fun m hw => .inl (hm m hw)

/-- Another emit goes out. -/
theorem asks (h : Follows a log responded w) (hbegins : Begins a' w) (hasks : Asks a' w w') :
    Follows a log responded w' where
  cell_lt := Nat.lt_of_lt_of_le h.cell_lt hasks.grows.cells
  responder_lt r hr := Nat.lt_of_lt_of_le (h.responder_lt r hr) hasks.grows.cells
  key_lt := Nat.lt_of_lt_of_le h.key_lt (hasks.grows.nextKey _)
  said m hm := by
    rcases hasks.mentions hbegins hm with hold | hnew
    · exact h.said m hold
    · exact (hbegins.apart_of_speaks h.cell_lt h.responder_lt h.key_lt hnew).allows
  value cell v hcell hanswered := by
    have hlt : cell < w.cells.length := by
      rcases hcell with rfl | hr
      · exact h.cell_lt
      · exact h.responder_lt cell hr
    exact h.value cell v hcell ((hasks.kept hlt).symm.trans hanswered)

/-- Its permit covers a turn from there, with the log of the turn and what may have been responded
by its end. -/
theorem covers (h : Follows a log responded w) (hlog : log ⊆ log')
    (hreply : ∀ reply v, a.Served log reply → reply.answer = .value v → responded' v) :
    Covers (permit a log' responded') w w' where
  fresh cell hnew _ := by
    have hcell : cell ≠ a.cell := by
      rintro rfl
      exact Nat.lt_irrefl _ (Nat.lt_of_le_of_lt hnew h.cell_lt)
    have hresponder : a.responder ≠ some cell := fun hr =>
      Nat.lt_irrefl _ (Nat.lt_of_le_of_lt hnew (h.responder_lt cell hr))
    refine ⟨⟨⟨hresponder, ?_⟩, ⟨⟨hcell, hresponder⟩, nofun⟩, ⟨hcell, hresponder⟩, nofun⟩,
      fun v => ⟨hcell, fun hr => absurd hr hresponder⟩⟩
    exact fun heq => hcell (Mention.client.inj heq)
  awaited cell v hsaid := by
    obtain ⟨hcell, hresponder⟩ := h.said _ hsaid
    exact ⟨hcell, fun hr => absurd hr hresponder⟩
  called cell v hsaid := by
    obtain ⟨hcell, hresponder⟩ := h.said _ hsaid
    exact ⟨hcell, fun hr => absurd hr hresponder⟩
  held cell n reply hsaid hhold := by
    obtain ⟨hcell, hserved⟩ := h.said _ hsaid
    exact ⟨⟨hcell, fun hr => ⟨reply, (hserved hr).mono hlog, hhold⟩⟩, nofun⟩
  replied cell n reply v hsaid hvalue := by
    obtain ⟨hcell, hserved⟩ := h.said _ hsaid
    exact ⟨hcell, fun hr => hreply reply v (hserved hr) hvalue⟩

/-- A server that is asked and runs is a moment of the log. -/
theorem served {task : Task} {rest : List Task} (h : Follows a log responded w)
    (hready : w.ready = task :: rest) (hdone : ⟨task, w.begin task rest⟩ ∈ log') {n : Nat}
    {event : String} {payload : Json} {cell : CellId} {reply : PeerReply}
    (hjob : task.job = .serve n event payload (some cell))
    (hreply : (w.begin task rest).reply? n event payload = some reply) :
    (permit a log' responded').mentions (.replied cell n reply) := by
  obtain ⟨hcell, hown⟩ :=
    h.said (.asked cell n event payload) (mentions_running hready (by rw [hjob]; rfl))
  refine ⟨⟨hcell, fun hr => ?_⟩, nofun⟩
  obtain ⟨rfl, rfl, rfl⟩ := hown hr
  exact ⟨_, hdone, cell, hr, hjob, hreply⟩

/-- An answer that is handed on came to the emit's responder. -/
theorem settled {task : Task} {rest : List Task} {v : Json} (h : Follows a log responded w)
    (hready : w.ready = task :: rest) {cell : CellId} {n key : Nat}
    (hjob : task.job = .receive cell (.forward n key)) (hanswered : w.cell cell = .answered v) :
    (permit a log responded).settles n key v := by
  intro hserial hkey
  obtain ⟨-, hown⟩ :=
    h.said (.forward cell n key) (mentions_running hready (by rw [hjob]; rfl))
  exact h.value cell v (.inr (hown.2 ⟨hserial, hkey⟩)) hanswered

/-- What a job does. -/
theorem exec {task : Task} {rest : List Task} (h : Follows a log responded w)
    (hready : w.ready = task :: rest) (hlog : log ⊆ log') (hdone : ⟨task, w.begin task rest⟩ ∈ log')
    (hresponded : ∀ v, responded v → responded' v)
    (hreply : ∀ reply v, a.Served log reply → reply.answer = .value v → responded' v) :
    Follows a log' responded' ((w.begin task rest).exec task.job) := by
  have hbegun : Follows a log' responded' (w.begin task rest) :=
    (h.mono hlog hresponded).idle rfl rfl fun m hm => mentions_begin hready hm
  rcases exec_within hready (h.covers hlog hreply)
    (fun _ _ _ _ _ hjob hreply => h.served hready hdone hjob hreply)
    (fun _ _ _ v hjob hanswered hserial hkey =>
      hresponded v (h.settled hready hjob hanswered hserial hkey)) with
    ⟨a', hbegins, hasks⟩ | ⟨mid, e, hmid, hnext, heq⟩
  · exact hbegun.asks hbegins hasks
  · rw [← heq]
    refine (hbegun.makes hmid).of_same (by cases e <;> rfl) (by cases e <;> rfl) fun m hm => ?_
    rcases mentions_onward hm with hold | ⟨next, hin, hsaid⟩
    · exact .inl hold
    · rcases hnext next hin m hsaid with hrunning | hnew
      · exact .inr ((h.said m (mentions_running hready hrunning)).mono hlog)
      · exact .inr hnew.1

/-- What a command does. -/
theorem perform {c : Command} (h : Follows a log responded w) (ticket : Nat)
    (hc : ∀ ms, c ≠ .wait ms) (hresponded : ∀ v, responded v → responded' v)
    (hreply : ∀ reply v, a.Served log reply → reply.answer = .value v → responded' v)
    (hlate : ∀ i r v reply, c = .answer i v → a.responder = some r → w.held[i]? = some (some r) →
      a.Served log reply → reply.answer = .hold → responded' v) :
    Follows a log responded' (w.perform ticket c).1 := by
  have hnow := h.mono (List.Subset.refl log) hresponded
  have hanswer (i : Nat) (cell : CellId) (v : Json) (hcommand : c = .answer i v)
      (hheld : w.held[i]? = some (some cell)) : (permit a log responded').puts cell v := by
    obtain ⟨hcell, hserved⟩ := h.said (.held cell) (.held (List.mem_of_getElem? hheld))
    refine ⟨hcell, fun hr => ?_⟩
    obtain ⟨reply, hran, hhold⟩ := hserved hr
    exact hlate i cell v reply hcommand hr hheld hran hhold
  rcases perform_within w ticket hc (h.covers (List.Subset.refl log) hreply) hanswer with
    ⟨a', hbegins, hasks⟩ | hmakes
  · exact hnow.asks hbegins hasks
  · exact hnow.makes hmakes

end Follows

/-- In any run from an emit's turn on, what came to it came from the server that was asked for
it. -/
theorem Run.follows (h : Run b log u) (h₀ : Follows a [] (a.Responded b [] b) b) :
    Follows a log (a.Responded b log u) u := by
  have hsame {log : List Moment} {w w' : World} (hrun : Run w [] w') (v : Json)
      (hv : a.Responded b log w v) : a.Responded b log w' v := by
    simpa using hv.later hrun
  induction h with
  | start => exact h₀
  | @step log w task rest _ hready ih =>
    have hlog : log ⊆ log ++ [⟨task, w.begin task rest⟩] := List.subset_append_left _ _
    refine ih.exec hready hlog (List.mem_append_right _ List.mem_cons_self)
      (fun v hv => hv.later (Run.start.step hready)) fun reply v hserved hvalue => ?_
    exact .reply (hserved.mono hlog) hvalue
  | @command log w hrun ticket c hc ih =>
    refine ih.perform ticket hc (hsame (Run.start.command ticket hc))
      (fun reply v hserved hvalue => .reply hserved hvalue) ?_
    rintro i r v reply rfl hr hheld hserved hhold
    exact .held ticket (List.append_nil log).symm hrun hserved hhold hr hheld .start
  | @pass log w _ t ht ih =>
    exact (ih.mono (List.Subset.refl log) (hsame (Run.start.pass ht))).idle rfl rfl
      fun m hm => hm.of_jobs (fun _ hjob => hjob) rfl rfl
  | @wake log w _ ih =>
    have hwoken := wakeDue_woken w
    exact (ih.mono (List.Subset.refl log) (hsame Run.start.wake)).idle hwoken.cells
      hwoken.connections
      fun m hm => hwoken.mentions hm

/-- When an emit has just gone out, nothing has come to it. -/
theorem Asks.follows (h : Asks a w b) (hbegins : Begins a w) (hbounded : w.Bounded)
    (responded : Json → Prop) : Follows a [] responded b where
  cell_lt := (h.cell_lt hbegins).1
  responder_lt := (h.cell_lt hbegins).2
  key_lt := h.key_lt hbegins
  said m hm := by
    rcases h.mentions hbegins hm with hold | hnew
    · exact (hbegins.apart hbounded hold).allows
    · exact hnew.allows hbegins.cell_ne_responder
  value cell v hcell hanswered := nomatch (h.empty hbegins hcell).symm.trans hanswered

end World

end Patchbay
