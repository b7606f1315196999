import Patchbay.Proofs.Sessions.Tidy

/-!
Connect requests that wait for the peer's API. A request does not change while it waits, and when it
is over it has become a session or has failed.
-/

namespace Patchbay

namespace World

variable {w w' : World} {opts : ConnectOptions} {c : Connecting}

/-! The ends of a request -/

theorem mem_track (w : World) (s : Session) : s ∈ (w.track s).sessions := by
  refine List.mem_append_left _ ?_
  unfold track
  split
  · simp
  · rename_i hsome
    obtain ⟨sessions, hsessions⟩ : ∃ sessions, w.owned.lookup s.owner = some sessions :=
      Option.ne_none_iff_exists'.1 fun hnone => hsome (by rw [hnone]; rfl)
    obtain ⟨before, after, hlist, -⟩ := List.lookup_eq_some_iff.1 hsessions
    simp [hlist]

theorem finishConnect_holds (w : World) (c : Connecting) (api : Option ServerApi) :
    ∃ hd ∈ (w.finishConnect c api).holding, hd.token = c.pass.token := by
  obtain ⟨handle, heq⟩ := finishConnect_eq w c api
  rw [heq]
  exact ⟨_, mem_holding_of_session (mem_track _ _), rfl⟩

theorem resume_waiting (w : World) (job : Job) :
    (w.resume job).waiting = job.connecting?.toList ++ w.waiting := by
  simp only [waiting, jobs, tasks, resume, List.cons_append, List.map_cons, List.filterMap_cons]
  cases job.connecting? <;> rfl

/-- A request that goes on is not forgotten. -/
theorem askOrFinish_holds (w : World) (c : Connecting) :
    ∃ hd ∈ (w.askOrFinish c).holding, hd.token = c.pass.token := by
  unfold askOrFinish
  split
  · exact finishConnect_holds w c none
  · refine ⟨c.holder, mem_holding_of_waiting ?_, rfl⟩
    rw [resume_waiting]
    exact List.mem_cons_self

/-- A request that was asked for its API and is forgotten has failed. -/
theorem finishEmit_fails {result : Except EmitError EmitOutcome}
    (h : ∀ hd ∈ (w.finishEmit result (.discovery c)).holding, hd.token ≠ c.pass.token) :
    ∃ error, w.finishEmit result (.discovery c) = w.failConnect c error := by
  rcases finishDiscovery_cases w result c with hfailed | ⟨_, d, -, -, hfinished⟩
  · exact hfailed
  · let bound := w.bindServerApi c.pass c.resolved.ignoredEvents d c.wired
    obtain ⟨hd, hhd, htoken⟩ :=
      finishConnect_holds bound.1 { c with wired := bound.2.1 } (some bound.2.2)
    rw [hfinished] at h
    exact absurd htoken (h hd hhd)

/-! Requests that wait -/

theorem resume_goes_on {job : Job} (hc : job.connecting? = some c) :
    c ∈ (w.resume job).waiting := by
  rw [resume_waiting, hc]
  exact List.mem_cons_self

theorem park_goes_on {job : Job} (hc : job.connecting? = some c) (signals : List Signal)
    (due : Option Nat) : c ∈ (w.park job signals due).waiting := by
  refine (onward_waiting w (.parks job signals due)).symm.subset ?_
  simp [Onward.job?, hc]

theorem resumeHook_goes_on {hook : Option Hook} {argument : Json} {after : AfterHook}
    {otherwise : Job}
    (hafter : after.connecting? = some c) (hotherwise : otherwise.connecting? = some c) :
    c ∈ (w.resumeHook hook argument after otherwise).waiting := by
  cases hook with
  | none => exact resume_goes_on hotherwise
  | some hook => exact resume_goes_on hafter

/-- A request that waits goes on waiting until its emit is done. -/
theorem exec_goes_on {job : Job} (hc : job.connecting? = some c)
    (hdone : ∀ result, job ≠ .emitDone result (.discovery c)) : c ∈ (w.exec job).waiting := by
  cases job with
  | emit run after => exact resumeHook_goes_on hc hc
  | transmit run after =>
    cases w.transmit_atTransport run after with
    | refused _ _ heq | rejected _ _ heq | asked _ _ heq =>
      simp only [exec, heq]
      exact resume_goes_on hc
    | sent _ _ heq =>
      simp only [exec, heq]
      exact resumeHook_goes_on hc hc
  | await cell due run after =>
    cases w.awaitAnswer_atCell cell due run after with
    | answered _ _ heq | abandoned _ heq | late _ _ _ heq =>
      simp only [exec, heq]
      exact resume_goes_on hc
    | waits _ _ heq =>
      simp only [exec, heq]
      exact park_goes_on hc _ _
  | settle result run after => cases result <;> exact resumeHook_goes_on hc hc
  | emitDone result after =>
    cases after with
    | discovery c' =>
      obtain rfl : c' = c := Option.some.inj hc
      exact absurd rfl (hdone result)
    | _ => cases hc
  | hook hook argument after =>
    have hended (reply : Reply) : (Job.hookEnd hook reply after).connecting? = some c := hc
    obtain ⟨mid, -, heq | ⟨reply, -, heq⟩⟩ := startHook_makes w hook argument after
    · simp only [exec, heq]
      exact resume_goes_on hc
    · simp only [exec, heq, resumeAfter]
      split
      · exact resume_goes_on (hended reply)
      · exact park_goes_on (hended reply) _ _
  | hookEnd hook reply after => exact resume_goes_on hc
  | hookDone verdict after =>
    cases after with
    | gate run after =>
      cases w.finishHook_atGate verdict run after with
      | vetoed _ heq | failed _ _ heq | passed _ heq =>
        simp only [exec, heq]
        exact resume_goes_on hc
    | settled result after => exact resume_goes_on hc
    | _ => cases hc
  | _ => cases hc

theorem failConnect_waiting (w : World) (c : Connecting) (error : EngineError) :
    (w.failConnect c error).waiting.Perm w.waiting :=
  (failConnect_makes w c error).waiting fun _ h => h.elim

theorem askOrFinish_waiting {c' : Connecting} (h : c' ∈ (w.askOrFinish c).waiting) :
    c' = c ∨ c' ∈ w.waiting := by
  unfold askOrFinish at h
  split at h
  · exact .inr (((finishConnect_makes w c none).waiting fun _ h => h.elim).subset h)
  · rw [resume_waiting] at h
    exact List.mem_cons.1 h

/-- A request that began after some time: it has a token that was not given out then, and if a
connection was opened for it, that was not there. -/
structure Begun (past : World) (c : Connecting) (w : World) : Prop where
  since : past.tokens ≤ c.pass.token
  given : c.pass.token < w.tokens
  fresh : c.reused = false → ¬ past.Opened c.pass.channel.connection

namespace Begun

variable {past : World}

theorem later (h : Begun past c w) (htokens : w.tokens ≤ w'.tokens) : Begun past c w' :=
  ⟨h.since, Nat.lt_of_lt_of_le h.given htokens, h.fresh⟩

theorem earlier (h : Begun w c w') (htokens : past.tokens ≤ w.tokens)
    (hopened : ∀ n, past.Opened n → w.Opened n) : Begun past c w' :=
  ⟨Nat.le_trans htokens h.since, h.given, fun hfresh hold => h.fresh hfresh (hopened _ hold)⟩

end Begun

theorem startConnect_waiting {ticket : Nat} {name : String} {owner : ComponentId}
    (h : c ∈ (w.startConnect ticket name owner opts).waiting) :
    c ∈ w.waiting ∨ Begun w c (w.startConnect ticket name owner opts) := by
  rcases startConnect_cases w ticket name owner opts with
    hnone | ⟨acquired, r, c₀, mid, hacquired, -, htoken, hnew, hattaches, hends⟩
  · exact .inl ((hnone.waiting fun _ h => h.elim).subset h)
  · have hwired : mid.waiting.Perm (acquired.enter r).waiting :=
      hattaches.makes.waiting fun _ h => h.elim
    have hold : mid.waiting ⊆ w.waiting :=
      (hwired.trans (hacquired.waiting fun _ h => h.elim)).subset
    rcases hends with ⟨error, heq⟩ | heq
    · rw [heq] at h
      exact .inl (hold ((failConnect_waiting mid c₀ error).subset h))
    · rw [heq] at h ⊢
      rcases askOrFinish_waiting h with rfl | hmem
      · have hgiven : acquired.tokens < mid.tokens := hattaches.makes.tokens
        refine .inr ⟨?_, ?_, hnew⟩
        · rw [htoken]
          exact hacquired.tokens
        · rw [htoken]
          exact Nat.lt_of_lt_of_le hgiven (askOrFinish_does mid c).tokens
      · exact .inl (hold hmem)

theorem exec_waiting {job : Job} (h : c ∈ (w.exec job).waiting) :
    c ∈ w.waiting ∨ job.connecting? = some c ∨ Begun w c (w.exec job) := by
  by_cases hstart : ∃ ticket name owner opts, job = .connect ticket name owner opts
  · obtain ⟨ticket, name, owner, opts, rfl⟩ := hstart
    exact (startConnect_waiting h).imp_right .inr
  · obtain ⟨mid, e, hmid, hleads, heq⟩ := exec_does w job
    rw [← heq] at h
    rcases List.mem_append.1 ((onward_waiting mid e).subset h) with hnext | hmem
    · obtain ⟨next, hnext, hc⟩ := List.mem_filterMap.1 hnext
      refine .inr (.inl ((hleads next (Option.mem_toList.1 hnext)).connecting ?_ c hc))
      exact fun ticket name owner opts heq => hstart ⟨ticket, name, owner, opts, heq⟩
    · exact .inl ((hmid.waiting fun _ hch => hch.spawns.1).subset hmem)

theorem begin_waiting {task : Task} {rest : List Task} (hready : w.ready = task :: rest) :
    w.waiting = task.job.connecting?.toList ++ (w.begin task rest).waiting :=
  begin_pick hready Job.connecting?

/-- Every request that waits waited then, or has begun since. -/
structure Since (past w : World) : Prop where
  tokens : past.tokens ≤ w.tokens
  waits : ∀ c ∈ w.waiting, c ∈ past.waiting ∨ Begun past c w

namespace Since

variable {past : World}

theorem fewer (h : Since past w) (htokens : w.tokens ≤ w'.tokens)
    (hwaiting : w'.waiting ⊆ w.waiting) :
    Since past w' where
  tokens := Nat.le_trans h.tokens htokens
  waits c hc := (h.waits c (hwaiting hc)).imp_right (·.later htokens)

theorem given (h : Since past w) (hgiven : ∀ c ∈ past.waiting, c.pass.token < past.tokens) :
    ∀ c ∈ w.waiting, c.pass.token < w.tokens := by
  intro c hc
  rcases h.waits c hc with hold | hbegun
  · exact Nat.lt_of_lt_of_le (hgiven c hold) h.tokens
  · exact hbegun.given

/-- Those with a token of the past waited then. -/
theorem old (h : Since past w) (hc : c ∈ w.waiting) (hold : c.pass.token < past.tokens) :
    c ∈ past.waiting :=
  (h.waits c hc).resolve_right fun hbegun => Nat.not_le_of_lt hold hbegun.since

/-- So did those for which a connection of the past was opened. -/
theorem opener (h : Since past w) (hc : c ∈ w.waiting) (hfresh : c.reused = false)
    (hopened : past.Opened c.pass.channel.connection) : c ∈ past.waiting :=
  (h.waits c hc).resolve_right fun hbegun => hbegun.fresh hfresh hopened

end Since

theorem Run.opened {w₁ : World} {log : List Moment} {n : Nat} (h : Run w₁ log w)
    (hn : w₁.Opened n) :
    w.Opened n :=
  h.keeps (I := fun w => w.Opened n) (fun _ ch hw => hw.apply ch) (fun _ _ _ _ _ hw => hw) hn

theorem Run.since {w₁ : World} {log : List Moment} (h : Run w₁ log w) : Since w₁ w := by
  induction h with
  | start => exact ⟨Nat.le_refl _, fun c hc => .inl hc⟩
  | @step log w task rest hrun hready ih =>
    have hlater : (w.begin task rest).tokens ≤ ((w.begin task rest).exec task.job).tokens :=
      (exec_does (w.begin task rest) task.job).tokens
    have hbefore (c : Connecting) (hc : c ∈ w.waiting) :
        c ∈ w₁.waiting ∨ Begun w₁ c ((w.begin task rest).exec task.job) :=
      (ih.waits c hc).imp_right (·.later hlater)
    refine ⟨Nat.le_trans ih.tokens hlater, fun c hc => ?_⟩
    rcases exec_waiting hc with hmem | hjob | hbegun
    · refine hbefore c ?_
      rw [begin_waiting hready]
      exact List.mem_append_right _ hmem
    · refine hbefore c ?_
      rw [begin_waiting hready, hjob]
      exact List.mem_cons_self
    · exact .inr (hbegun.earlier ih.tokens fun n hn => hrun.opened hn)
  | @command _ w _ ticket _ hc ih =>
    have hmakes := perform_makes w ticket hc
    exact ih.fewer hmakes.tokens (hmakes.waiting fun _ hch => hch.spawns.1).subset
  | pass _ _ ih => exact ih.fewer (Nat.le_refl _) (List.Subset.refl _)
  | @wake _ w _ ih =>
    exact ih.fewer (Nat.le_refl _) (((wakeDue_woken w).tasks.map _).filterMap _).subset

/-- A request that is over after it waited has not changed since. -/
theorem Run.waited {w₁ : World} {log : List Moment} {m : Moment} (h : Run w₁ log w) (hm : m ∈ log)
    (hconnecting : m.job.connecting? = some c) (hold : c.pass.token < w₁.tokens) :
    c ∈ w₁.waiting := by
  obtain ⟨earlier, later, rfl⟩ := List.append_of_mem hm
  obtain ⟨v, rest, hmeanwhile, hready, -, -⟩ := h.split
  refine hmeanwhile.since.old ?_ hold
  have htask : m.task.job.connecting? = some c := hconnecting
  rw [begin_waiting hready, htask]
  exact List.mem_cons_self

end World

end Patchbay
