import BringUp.Proofs.Board.Agreement
import BringUp.Proofs.Board.Requests
import BringUp.Proofs.Pma.Coverage

/-!
# Coverage on a running platform

No memory attribute entry is ever enabled for a wrong place, not even between two register writes of
one request. An entry that is enabled has the address of the region that the latest accepted call
asked for, where a call counts from the moment it has passed its checks
(`covered_at_every_write`).

A request does one of three things to the table and the entries (`Turn`): it leaves them alone, it
is a vendor call with its effect, or it clears them at the end of a cold boot. In each case the
events are accepted by the monitor `coverage`, and what was granted explains the table afterwards as
it did before.
-/

namespace BringUp

open Firmware Pma

/-! ### Effects of vendor calls -/

namespace Vendor.Effect

variable {granted : Fin entries → Region → Prop} {wide : List Event} {t t' : Table} {bank : CsrFile}
  {c : Call} {es : List Event}

/-- An effect leaves regions that were granted, if one that it assigns is. -/
theorem explained (h : Effect t bank c es t') (ht : t.Explained granted)
    (hassign : ∀ hgrant : c.Granted t bank,
      granted ⟨c.args.fourth.toNat, hgrant.accepts.entry_lt⟩ c.region) : t'.Explained granted := by
  cases h with
  | aside => exact ht
  | assign hgrant =>
    refine ht.set hgrant.accepts.entry_lt ?_
    rintro r ⟨⟩
    exact hassign hgrant
  | release _ i => exact ht.set i.isLt nofun

/-- **An effect is covered at every write.** -/
theorem accepts (h : Effect t bank c es t') (hagrees : t.Agrees bank) (ht : t.Explained granted)
    (hassign : ∀ hgrant : c.Granted t bank,
      granted ⟨c.args.fourth.toNat, hgrant.accepts.entry_lt⟩ c.region) :
    (coverage granted wide).Accepts bank es := by
  have hcovered : Covered granted bank := covered_of_agrees hagrees ht
  cases h with
  | aside _ hes => exact accepts_of_spares hcovered fun e he ↦ (hes e he).spares
  | assign hgrant text =>
    refine ⟨(ignores_of_csrWrite?_eq_none hcovered rfl).1, ?_⟩
    refine accepts_append_spares hcovered ?_ fun _ ↦ spares_of_mem_log
    exact accepts_assign hagrees ht hgrant.programmable hgrant.accepts (hassign hgrant)
  | release _ i text =>
    exact accepts_append_spares hcovered (accepts_release hcovered i) fun _ ↦ spares_of_mem_log

end Vendor.Effect

namespace Board

variable {settings : Settings} {bank : CsrFile} {steps : List (Step Platform Request Answer)}
  {s : Step Platform Request Answer} {pl pl' : Platform} {c : Vendor.Call} {m m' : Machine}
  {answer : Answer} {i : Fin entries}

/-! ### Accepted calls -/

/-- The call that was made in a step, if it asked for the entry and was told success. -/
def accepted? (i : Fin entries) (s : Step Platform Request Answer) : Option Vendor.Call :=
  match s.request, s.ending with
  | .hook (.call c), .ok (.reply r) =>
    if c.extension = Vendor.extensionId ∧ c.function = 10 ∧ c.args.fourth.toNat = i.val ∧
        r.status = Status.success then some c
    else none
  | _, _ => none

/-- The latest call that asked for the entry and was told success. -/
def latestAccepted (steps : List (Step Platform Request Answer)) (i : Fin entries) :
    Option Vendor.Call :=
  (steps.filterMap (accepted? i)).getLast?

/-- The region is the one that the latest accepted call asked for. -/
def granted (steps : List (Step Platform Request Answer)) (i : Fin entries) (r : Region) : Prop :=
  ∃ c, latestAccepted steps i = some c ∧ c.region = r

theorem accepted?_eq_some_iff : accepted? i s = some c ↔
    s.request = .hook (.call c) ∧ ∃ r, s.ending = .ok (.reply r) ∧
      c.extension = Vendor.extensionId ∧ c.function = 10 ∧ c.args.fourth.toNat = i.val ∧
        r.status = Status.success := by
  rw [accepted?]
  constructor
  · intro h
    split at h
    · next c' r hrequest hending =>
      obtain ⟨hasked, hcall⟩ := Option.ite_none_right_eq_some.1 h
      obtain rfl := Option.some.inj hcall
      exact ⟨hrequest, r, hending, hasked⟩
    · cases h
  · rintro ⟨hrequest, r, hending, hasked⟩
    rw [hrequest, hending]
    exact if_pos hasked

theorem latestAccepted_append_of_none (h : accepted? i s = none) :
    latestAccepted (steps ++ [s]) i = latestAccepted steps i := by
  rw [latestAccepted, List.filterMap_append, List.filterMap_cons_none h, List.filterMap_nil,
    List.append_nil, latestAccepted]

theorem latestAccepted_append_of_some (h : accepted? i s = some c) :
    latestAccepted (steps ++ [s]) i = some c := by
  rw [latestAccepted, List.filterMap_append, List.filterMap_cons_some h, List.filterMap_nil,
    List.getLast?_concat]

/-! ### What a request does to the table -/

/-- What was done to the table and the entries in a step. -/
inductive Turn (s : Step Platform Request Answer) : Prop
  /-- They were left alone. -/
  | aside (hrequest : ∀ c, s.request ≠ .hook (.call c)) (hes : ∀ e ∈ s.events, Spares e)
    (hregions : s.after.regions = s.before.regions)
  /-- A vendor call had its effect. -/
  | call {c : Vendor.Call} {reply : Vendor.Reply} (hrequest : s.request = .hook (.call c))
    (hending : s.ending = .ok (.reply reply))
    (heffect : Vendor.Effect s.before.regions s.machine.csrs c s.events s.after.regions)
    (hstatus : c.extension = Vendor.extensionId → c.function = 10 →
      (reply.status = Status.success ↔ c.Granted s.before.regions s.machine.csrs))
  /-- They were cleared. -/
  | clear {front back : List Event} (hrequest : s.request = .hook (.finishBoot true))
    (hevents : s.events = front ++ Table.clearEvents (s.machine.csrs.replay front) ++ back)
    (hfront : ∀ e ∈ front, Spares e) (hback : ∀ e ∈ back, Spares e)
    (hregions : s.after.regions = .empty)

/-- A request that is no vendor call, spares the entries and leaves the table alone if it ends. -/
theorem Turn.of_spares (hmade : s.Made Platform.make m')
    (hrequest : ∀ c, s.request ≠ .hook (.call c)) (hes : Emits Spares (s.request.act s.before))
    (hregions : ∀ {m answer pl' m'}, s.request.act s.before m = .ok (answer, pl') m' →
      pl'.regions = s.before.regions) : Turn s := by
  refine .aside hrequest (hmade.leads hes.settling).2 ?_
  rcases settling_eq_ok hmade.run_eq with ⟨_, -, hact⟩ | ⟨_, -, hafter, -⟩
  · exact hregions hact
  · rw [hafter]

theorem Opening.regions_of_act {o : Opening} (h : o.act pl m = .ok (answer, pl') m') :
    pl'.regions = pl.regions := by
  rcases Opening.settling_eq_ok (settling_of_ok h) with ⟨-, hopen⟩ | ⟨_, -, rfl, -⟩ | ⟨_, -, -, rfl, -⟩
  · exact Platform.regions_of_openConsoleAt hopen
  · rfl
  · rfl

/-- Opening the console spares the entries. -/
theorem Opening.spares_act (o : Opening) : Emits Spares (o.act pl) :=
  Opening.emits_act (fun _ ↦ spares_of_within) (fun _ ↦ spares_of_within) fun _ ↦
    spares_of_csrWrite?_eq_none rfl

/-- Finishing a cold boot stops before the table is cleared, or clears it. -/
theorem turn_of_coldBoot (hmade : s.Made Platform.make m')
    (hrequest : s.request = .hook (.finishBoot true)) : Turn s := by
  have hcaches : Emits Spares s.before.enableCaches :=
    Platform.emits_enableCaches (fun _ h ↦ h.spares) fun _ ↦ spares_of_within
  obtain ⟨text, hclear⟩ := s.before.runs_announce
  have hrun := hmade.run_eq
  rw [hrequest] at hrun
  rcases settling_eq_ok hrun with ⟨_, -, hact⟩ | ⟨stop, -, hafter, hact⟩
  · obtain ⟨after, m₁, hfinish, hpure⟩ := bind_eq_ok_iff.1 hact
    obtain ⟨hresult, rfl⟩ := pure_eq_ok_iff.1 hpure
    rw [Platform.finishBoot_eq] at hfinish
    obtain ⟨_, m₂, hon, hrest⟩ := bind_eq_ok_iff.1 hfinish
    obtain ⟨front, hfront, hspares⟩ := hcaches.of_ok hon
    rw [(hclear m₂.csrs).apply] at hrest
    obtain ⟨rfl, rfl⟩ := EStateM.Result.ok.inj hrest
    have hevents := hmade.eq_events (hfront.trans (m₂.leads_perform _))
    rw [hfront.csrs_eq, ← List.append_assoc] at hevents
    refine .clear hrequest hevents.symm hspares (fun _ ↦ spares_of_mem_log) ?_
    rw [← (Prod.mk.inj hresult).2]
  · refine .aside (by rw [hrequest]; exact nofun) ?_ (by rw [hafter])
    -- nothing stops once the caches are on
    rcases bind_eq_error_iff.1 hact with hfinish | ⟨_, _, -, hpure⟩
    · rw [Platform.finishBoot_eq] at hfinish
      rcases bind_eq_error_iff.1 hfinish with hon | ⟨_, m₂, -, hrest⟩
      · obtain ⟨es, hes, hspares⟩ := hcaches.of_error hon
        rw [← hmade.eq_events hes]
        exact hspares
      · rw [(hclear m₂.csrs).apply] at hrest
        cases hrest
    · cases hpure

/-- Finishing a warm boot leaves the table alone. -/
theorem turn_of_warmBoot (hmade : s.Made Platform.make m')
    (hrequest : s.request = .hook (.finishBoot false)) : Turn s := by
  refine .of_spares hmade (by rw [hrequest]; exact nofun) ?_ fun h ↦ ?_
  · rw [hrequest]
    have hfinish : Emits Spares (s.before.finishBoot false) := Platform.emits_finishBoot
      (fun _ h ↦ h.spares) (fun _ ↦ spares_of_within) nofun
    exact .bind hfinish fun _ ↦ .pure _
  · rw [hrequest] at h
    obtain ⟨after, _, hfinish, hpure⟩ := bind_eq_ok_iff.1 h
    obtain ⟨regions, _, _, hregions, hafter⟩ := Platform.finishBoot_eq_ok hfinish
    rw [← (Prod.mk.inj (pure_eq_ok_iff.1 hpure).1).2, hafter]
    exact (pure_eq_ok_iff.1 hregions).1.symm

/-- A call is made as it is answered. -/
theorem make_call {es : List Event} {reply : Vendor.Reply} {t' : Table}
    (hanswer : Runs (c.answer pl.regions) m.csrs es (.ok (reply, t'))) :
    pl.make (.hook (.call c)) m =
      .ok (.ok (.reply reply), { pl with regions := t' }) (m.perform es) := by
  have hact : Runs (Request.act pl (.hook (.call c))) m.csrs (es ++ [])
      (.ok (.reply reply, { pl with regions := t' })) :=
    (Platform.runs_call hanswer).bind (runs_pure _ _)
  rw [List.append_nil] at hact
  exact settling_of_ok hact.apply

/-- What a call does is what answering it does to the table and the registers. -/
theorem eq_of_call (hmade : s.Made Platform.make m') (hrequest : s.request = .hook (.call c))
    {es : List Event} {reply : Vendor.Reply} {t' : Table}
    (hanswer : Runs (c.answer s.before.regions) s.machine.csrs es (.ok (reply, t'))) :
    s.events = es ∧ s.ending = .ok (.reply reply) ∧ s.after = { s.before with regions := t' } := by
  have hrun := hmade.run_eq
  rw [hrequest, make_call hanswer] at hrun
  obtain ⟨hresult, rfl⟩ := EStateM.Result.ok.inj hrun
  obtain ⟨hending, hafter⟩ := Prod.mk.inj hresult
  exact ⟨(hmade.eq_events (s.machine.leads_perform es)).symm, hending.symm, hafter.symm⟩

theorem turn_of_call (hmade : s.Made Platform.make m') (hrequest : s.request = .hook (.call c)) :
    Turn s := by
  obtain ⟨es, reply, t', hanswer, heffect, hstatus⟩ :=
    Vendor.runs_answer s.before.regions s.machine.csrs c
  obtain ⟨rfl, hending, hafter⟩ := eq_of_call hmade hrequest hanswer
  refine .call hrequest hending ?_ hstatus
  rw [hafter]
  exact heffect

theorem turn_of_beginBoot {cold : Bool} (hmade : s.Made Platform.make m')
    (hrequest : s.request = .hook (.beginBoot cold)) : Turn s := by
  refine .of_spares hmade (by rw [hrequest]; exact nofun) ?_ fun h ↦ ?_
  · have hbegin : Emits Spares (s.before.beginBoot cold) :=
      (Platform.emits_beginBoot cold).mono fun _ h ↦ h.spares
    rw [hrequest]
    exact .bind hbegin fun _ ↦ .pure _
  · rw [hrequest] at h
    obtain ⟨_, _, -, hpure⟩ := bind_eq_ok_iff.1 h
    rw [← (Prod.mk.inj (pure_eq_ok_iff.1 hpure).1).2]

theorem turn_of_opening {o : Opening} (hmade : s.Made Platform.make m')
    (hopening : s.request.opening? s.before.settings = some o) : Turn s := by
  have hact := Request.act_of_opening? hopening
  refine .of_spares hmade (fun c hcall ↦ ?_) (hact ▸ o.spares_act) fun h ↦ ?_
  · rw [hcall] at hopening
    cases hopening
  · rw [hact] at h
    exact o.regions_of_act h

theorem turn_of_output {o : Output} (hmade : s.Made Platform.make m')
    (hrequest : s.request = .output o) : Turn s := by
  refine .of_spares hmade (by rw [hrequest]; exact nofun) ?_ fun h ↦ ?_
  · rw [hrequest]
    exact Output.emits_act (fun _ _ _ ↦ spares_of_within) o
  · rw [hrequest] at h
    rw [Output.eq_of_act h]

/-- **What a request does to the table**: nothing, the effect of a call, or clearing it. -/
theorem turn_of_made (hmade : s.Made Platform.make m') : Turn s := by
  cases hrequest : s.request with
  | output o => exact turn_of_output hmade hrequest
  | hook hook =>
    cases hopening : hook.opening? s.before.settings with
    | some o => exact turn_of_opening hmade (by rw [hrequest]; exact hopening)
    | none =>
      cases hook with
      | beginBoot cold => exact turn_of_beginBoot hmade hrequest
      | finishBoot cold =>
        cases cold with
        | true => exact turn_of_coldBoot hmade hrequest
        | false => exact turn_of_warmBoot hmade hrequest
      | call c => exact turn_of_call hmade hrequest
      | _ => cases hopening

/-! ### Coverage of a request -/

/-- The writes of a request that may reach several entries. -/
def Request.clearing : Request → List Event
  | .hook (.finishBoot true) => clearWrites
  | _ => []

/-- A call that passes every check is the latest one to have asked for its entry. -/
theorem granted_of_call {reply : Vendor.Reply} (hrequest : s.request = .hook (.call c))
    (hending : s.ending = .ok (.reply reply))
    (hstatus : c.extension = Vendor.extensionId → c.function = 10 →
      (reply.status = Status.success ↔ c.Granted s.before.regions s.machine.csrs))
    (hgrant : c.Granted s.before.regions s.machine.csrs) :
    granted (steps ++ [s]) ⟨c.args.fourth.toNat, hgrant.accepts.entry_lt⟩ c.region := by
  refine ⟨c, latestAccepted_append_of_some (accepted?_eq_some_iff.2 ?_), rfl⟩
  have hsuccess := (hstatus hgrant.extension_eq hgrant.function_eq).2 hgrant
  exact ⟨hrequest, reply, hending, hgrant.extension_eq, hgrant.function_eq, rfl, hsuccess⟩

namespace Turn

variable (hturn : Turn s)

include hturn

/-- A call that was accepted passed every check. -/
theorem granted_of_accepted (h : accepted? i s = some c) :
    c.Granted s.before.regions s.machine.csrs ∧ c.args.fourth.toNat = i.val := by
  obtain ⟨hcall, r, hreply, hext, hfun, hentry, hsuccess⟩ := accepted?_eq_some_iff.1 h
  cases hturn with
  | aside hrequest => exact absurd hcall (hrequest c)
  | call hrequest hending _ hstatus =>
    obtain rfl := Hook.call.inj (Request.hook.inj (hrequest.symm.trans hcall))
    obtain rfl := Answer.reply.inj (Except.ok.inj (hending.symm.trans hreply))
    exact ⟨(hstatus hext hfun).1 hsuccess, hentry⟩
  | clear hrequest => exact nomatch hrequest.symm.trans hcall

/-- What explains the regions before a request still does once the request counts: an entry that was
asked for with success was free. -/
theorem explained_before (h : s.before.regions.Explained (granted steps)) :
    s.before.regions.Explained (granted (steps ++ [s])) := by
  intro i r hr
  have hnone : accepted? i s = none := by
    refine Option.eq_none_iff_forall_ne_some.2 fun c hc ↦ ?_
    obtain ⟨hgrant, hentry⟩ := hturn.granted_of_accepted hc
    have hlt := hgrant.accepts.entry_lt
    obtain rfl : i = ⟨c.args.fourth.toNat, hlt⟩ := Fin.ext hentry.symm
    have hfree := hgrant.accepts.free
    rw [Table.get?_eq_getElem _ hlt] at hfree
    exact nomatch hfree.symm.trans hr
  rw [granted, latestAccepted_append_of_none hnone]
  exact h i r hr

/-- **What was granted explains the regions after a request.** -/
theorem explained (h : s.before.regions.Explained (granted steps)) :
    s.after.regions.Explained (granted (steps ++ [s])) := by
  have hbefore := hturn.explained_before h
  cases hturn with
  | aside _ _ hregions => rwa [hregions]
  | call hrequest hending heffect hstatus =>
    exact heffect.explained hbefore (granted_of_call hrequest hending hstatus)
  | clear _ _ _ _ hregions =>
    rw [hregions]
    exact Table.explained_empty

/-- A request keeps table and hardware in agreement. -/
theorem agrees (h : s.before.regions.Agrees s.machine.csrs) :
    s.after.regions.Agrees (s.machine.csrs.replay s.events) := by
  cases hturn with
  | aside _ hes hregions =>
    rw [hregions]
    exact h.replay hes
  | call _ _ heffect => exact heffect.agrees h
  | clear _ hevents hfront hback hregions =>
    rw [hregions, hevents, CsrFile.replay_append, CsrFile.replay_append]
    exact (h.replay hfront).clear.replay hback

/-- **A request is covered at every write**, and only one that clears the table writes for several
entries at once. -/
theorem accepts (hagrees : s.before.regions.Agrees s.machine.csrs)
    (h : s.before.regions.Explained (granted steps)) :
    (coverage (granted (steps ++ [s])) s.request.clearing).Accepts s.machine.csrs s.events := by
  have hbefore := hturn.explained_before h
  have hcovered : Covered (granted (steps ++ [s])) s.machine.csrs := covered_of_agrees hagrees hbefore
  cases hturn with
  | aside _ hes => exact accepts_of_spares hcovered hes
  | call hrequest hending heffect hstatus =>
    exact heffect.accepts hagrees hbefore (granted_of_call hrequest hending hstatus)
  | @clear front back hrequest hevents hfront hback =>
    have hmiddle : Covered (granted (steps ++ [s])) (s.machine.csrs.replay front) :=
      covered_of_agrees (hagrees.replay hfront) hbefore
    rw [hrequest, hevents]
    refine accepts_append_spares hcovered (Monitor.accepts_append.2 ?_) hback
    exact ⟨accepts_of_spares hcovered hfront, accepts_clear hmiddle⟩

/-- A request that clears both configuration registers writes nothing else to them. -/
theorem filter_eq_clearWrites (hrequest : s.request = .hook (.finishBoot true)) {e : Event}
    (he : e ∈ s.events) (hclear : e ∈ clearWrites) :
    s.events.filter isConfigWrite = clearWrites := by
  have hmem : e ∈ s.events.filter isConfigWrite :=
    List.mem_filter.2 ⟨he, isConfigWrite_of_mem_clearWrites e hclear⟩
  cases hturn with
  | aside _ hes =>
    rw [filter_isConfigWrite_of_spares hes] at hmem
    exact nomatch hmem
  | call hcall => exact nomatch hrequest.symm.trans hcall
  | clear _ hevents hfront hback =>
    rw [hevents, List.filter_append, List.filter_append, filter_isConfigWrite_of_spares hfront,
      filter_isConfigWrite_of_spares hback, filter_isConfigWrite_clearEvents, List.nil_append,
      List.append_nil] at hmem ⊢
    split at hmem
    · next hprog => rw [if_pos hprog]
    · exact nomatch hmem

end Turn

/-! ### Sessions -/

/-- Table and hardware agree between requests, and the regions are those of accepted calls. -/
theorem regions_of_session (h₀ : bank.get (.pmaCfg 0) = 0) (h₂ : bank.get (.pmaCfg 2) = 0)
    (h : Session Platform.make { settings } bank steps pl m) :
    pl.regions.Agrees m.csrs ∧ pl.regions.Explained (granted steps) := by
  induction h with
  | start hm =>
    rw [hm]
    exact ⟨Table.agrees_empty h₀ h₂, Table.explained_empty⟩
  | elsewhere _ hcsrs ih =>
    rw [hcsrs]
    exact ih
  | call _ hmade ih =>
    have hturn := turn_of_made hmade
    rw [(hmade.leads (emits_make _ _)).1.csrs_eq]
    exact ⟨hturn.agrees ih.1, hturn.explained ih.2⟩

/-- **No enabled entry ever covers a wrong place.** Over a bank whose two configuration registers are
zero, let `now` be the registers at any moment of any request to a fresh platform: every entry whose
configuration byte is not zero has the configuration byte of a region and the address of the one that
the latest accepted call for it asked for, the present request included. A register write that is
due changes the configuration byte of one entry at most; the exception are two writes of zero, with
which finishing a cold boot clears both registers. -/
theorem covered_at_every_write {now : CsrFile} {before later : List (Step Platform Request Answer)}
    {done rest : List Event} (h₀ : bank.get (.pmaCfg 0) = 0) (h₂ : bank.get (.pmaCfg 2) = 0)
    (h : Session Platform.make { settings } bank (before ++ s :: later) pl m)
    (hevents : s.events = done ++ rest) (hnow : now = bank.replay (history before ++ done)) :
    s.machine.csrs = bank.replay (history before) ∧
    (∀ i : Fin 16, now.configByte i ≠ 0 → now.configByte i = 0x0F ∧
      ∃ c, latestAccepted (before ++ [s]) i = some c ∧
        now.pmaAddress i = (c.args.first >>> 2) ||| ((c.args.third >>> 3) - 1)) ∧
    ∀ csr value, rest.head? = some (.csrWrite csr value) →
      (∃ i : Fin 16, ∀ j ≠ i, (now.set csr value).configByte j = now.configByte j) ∨
        s.request = .hook (.finishBoot true) ∧ .csrWrite csr value ∈ clearWrites ∧
          s.events.filter isConfigWrite = clearWrites := by
  obtain ⟨m₁, hbefore, hmade, -⟩ := h.made
  have hcsrs := hbefore.csrs_eq emits_make
  obtain ⟨hagrees, hexplained⟩ := regions_of_session h₀ h₂ hbefore
  have hturn := turn_of_made hmade
  have haccepts := hturn.accepts hagrees hexplained
  have hstart : Covered (granted (before ++ [s])) s.machine.csrs :=
    covered_of_agrees hagrees (hturn.explained_before hexplained)
  rw [CsrFile.replay_append, ← hcsrs] at hnow
  rw [hevents] at haccepts
  refine ⟨hcsrs, fun i hon ↦ ?_, fun csr value hnext ↦ ?_⟩
  · rw [hnow] at hon ⊢
    obtain ⟨hconfig, r, ⟨c, hlatest, hregion⟩, haddress⟩ := covered_of_accepts hstart haccepts i hon
    rw [← hregion] at haddress
    exact ⟨hconfig, c, hlatest, haddress⟩
  · obtain ⟨rest, rfl⟩ := List.head?_eq_some_iff.1 hnext
    rw [hnow]
    refine haccepts.allows.2.imp id fun hclearing ↦ ?_
    -- only finishing a cold boot has writes of this kind
    unfold Request.clearing at hclearing
    split at hclearing
    · next hrequest =>
      refine ⟨hrequest, hclearing, hturn.filter_eq_clearWrites hrequest ?_ hclearing⟩
      rw [hevents]
      exact List.mem_append_right _ List.mem_cons_self
    · exact nomatch hclearing

/-- A core with programmable attributes. -/
def pagesMachine : Machine :=
  { watchdog := ⟨1, 0, 0, 0⟩, csrs := CsrFile.zero.set .mmscCfg 0x40000000 }

/-- Two pages are asked for at entry 9. -/
def pagesRequest : Request :=
  .hook (.call ⟨Vendor.extensionId, 10, ⟨0x40000000, 0x1000, 0x2000, 9⟩⟩)

/-- What is done about it up to the second write. -/
def pagesEvents : List Event :=
  [.csrRead .mmscCfg 0x40000000, .csrWrite (.pmaAddr 9) 0x100003FF, .csrRead (.pmaCfg 2) 0,
    .csrWrite (.pmaCfg 2) 0x0F00]

/-- With the second write of the call its entry is enabled, at the place that the call asks for. -/
theorem covered_at_every_write_two_pages :
    ∃ (s : Step Platform Request Answer) (pl : Platform) (m : Machine) (rest : List Event),
      Session Platform.make { settings := {} } pagesMachine.csrs ([] ++ [s]) pl m ∧
      s.request = pagesRequest ∧ s.events = pagesEvents ++ rest ∧
      (pagesMachine.csrs.replay pagesEvents).configByte (9 : Fin 16) = 0x0F ∧
      ∃ c, latestAccepted [s] (9 : Fin 16) = some c ∧
        (pagesMachine.csrs.replay pagesEvents).pmaAddress (9 : Fin 16) =
          (c.args.first >>> 2) ||| ((c.args.third >>> 3) - 1) := by
  have hends : (Platform.make { settings := {} } pagesRequest).endsWith
      (fun _ m' ↦ m'.trace.toList.take 4 == pagesEvents) pagesMachine = true := by decide +kernel
  obtain ⟨⟨ending, pl⟩, m', hrun, htrace⟩ := endsWith_iff.1 hends
  let s : Step Platform Request Answer :=
    ⟨pagesRequest, { settings := {} }, pagesMachine, ending, pl, m'.trace.toList⟩
  have hmade : s.Made Platform.make m' := ⟨hrun, rfl⟩
  have hsession : Session Platform.make { settings := {} } pagesMachine.csrs ([] ++ [s]) pl m' :=
    .call (.start rfl) hmade
  have hevents : s.events = pagesEvents ++ m'.trace.toList.drop 4 := by
    rw [← beq_iff_eq.1 htrace, List.take_append_drop]
  have hon : (pagesMachine.csrs.replay pagesEvents).configByte (9 : Fin 16) ≠ 0 := by decide
  obtain ⟨-, hcovered, -⟩ := covered_at_every_write rfl rfl hsession hevents rfl
  obtain ⟨hconfig, hlatest⟩ := hcovered 9 hon
  exact ⟨s, pl, m', _, hsession, rfl, hevents, hconfig, hlatest⟩

end Board

end BringUp
