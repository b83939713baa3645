import BringUp.Proofs.Board.Hooks
import BringUp.Proofs.Machine.Plain
import BringUp.Proofs.Machine.Progress
import BringUp.Proofs.Vendor.Control

/-!
# The hooks around the console

The hook before the console and the one after it change registers by reading them and writing them
back. What each of them makes of a register depends on the word in that register alone
(`beginWord`, `finishWord`), but that a cold boot clears the memory attribute entries only where the
core has them. Beside the registers, finishing boot reaches the control register of the second-level
cache, which it turns on unless it is on (`SecondLevelCache.lit`).

So on plain memory the final state is a function of the initial one (`Platform.exists_finishes`).
From the laws of these functions it follows that each hook is as good once as twice and that the
two can be called in either order (`boot_hooks_idempotent_commute`).
-/

namespace BringUp

open Firmware

/-! ### Words -/

section Word

variable {set clear : UInt64}

/-- Bits that are set and other bits that are cleared can be dealt with in either order. -/
theorem and_not_or_comm (h : set &&& ~~~clear = set) (word : UInt64) :
    (word &&& ~~~clear) ||| set = (word ||| set) &&& ~~~clear := by
  refine UInt64.toBitVec_inj.1 ?_
  have hset := congrArg UInt64.toBitVec h
  simp only [UInt64.toBitVec_and, UInt64.toBitVec_or] at hset ⊢
  rw [BitVec.and_or_distrib_right, hset]

/-- Setting bits and clearing others once more changes nothing. -/
theorem or_and_not_idem (h : set &&& ~~~clear = set) (word : UInt64) :
    (((word ||| set) &&& ~~~clear) ||| set) &&& ~~~clear = (word ||| set) &&& ~~~clear := by
  rw [and_not_or_comm h, UInt64.or_assoc, UInt64.or_self, UInt64.and_assoc, UInt64.and_self]

end Word

/-- Both bits of the write-around threshold are replaced: the low one is set, the high one
cleared. -/
theorem Vendor.bootCacheControl_eq (word : UInt64) :
    bootCacheControl word = (word ||| 0x2703) &&& ~~~0x4000 := by
  have hmask : ~~~CacheControl.writeAround = ~~~0x2000 &&& ~~~0x4000 := by decide
  have hlow : ∀ w : UInt64, (w &&& ~~~0x2000) ||| 0x2000 = w ||| 0x2000 := fun w ↦
    UInt64.toBitVec_inj.1 (bitVec_and_not_or_self w.toBitVec _)
  calc bootCacheControl word
      = ((word ||| 0x703) &&& ~~~CacheControl.writeAround) ||| 0x2000 := rfl
    _ = (((word ||| 0x703) &&& ~~~0x2000) &&& ~~~0x4000) ||| 0x2000 := by
      rw [hmask, UInt64.and_assoc]
    _ = (word ||| 0x703 ||| 0x2000) &&& ~~~0x4000 := by
      rw [and_not_or_comm (by decide), hlow]
    _ = (word ||| 0x2703) &&& ~~~0x4000 := by
      rw [UInt64.or_assoc]
      rfl

namespace Board

open Pma

/-! ### Registers -/

/-- What the hook before the console makes of the word in a register. -/
def beginWord (csr : Csr) (word : UInt64) : UInt64 :=
  if csr = .mmiscCtl then word &&& ~~~MiscControl.misaligned else word

/-- What finishing boot makes of the word in a register; `clears` if it clears the memory attribute
entries. -/
def finishWord (clears : Bool) : Csr → UInt64 → UInt64
  | .mcacheCtl, word => Vendor.bootCacheControl word
  | .mmiscCtl, word => word ||| MiscControl.nonBlocking
  | .pmaCfg n, word => if clears = true ∧ (n = 0 ∨ n = 2) then 0 else word
  | _, word => word

theorem beginWord_beginWord (csr : Csr) (word : UInt64) :
    beginWord csr (beginWord csr word) = beginWord csr word := by
  by_cases h : csr = .mmiscCtl
  · simp only [beginWord, if_pos h]
    rw [UInt64.and_assoc, UInt64.and_self]
  · simp only [beginWord, if_neg h]

theorem finishWord_finishWord (clears : Bool) (csr : Csr) (word : UInt64) :
    finishWord clears csr (finishWord clears csr word) = finishWord clears csr word := by
  cases csr with
  | mcacheCtl =>
    simp only [finishWord, Vendor.bootCacheControl_eq]
    exact or_and_not_idem (by decide) word
  | mmiscCtl =>
    simp only [finishWord]
    rw [UInt64.or_assoc, UInt64.or_self]
  | pmaCfg n =>
    simp only [finishWord]
    split <;> rfl
  | _ => rfl

theorem finishWord_beginWord (clears : Bool) (csr : Csr) (word : UInt64) :
    finishWord clears csr (beginWord csr word) = beginWord csr (finishWord clears csr word) := by
  by_cases h : csr = .mmiscCtl
  · subst h
    exact and_not_or_comm (by decide) word
  · simp only [beginWord, if_neg h]

/-- The registers after the hook before the console. -/
def beginBank (bank : CsrFile) : CsrFile :=
  fun csr ↦ beginWord csr (bank.get csr)

/-- The registers once boot is finished. -/
def finishBank (cold : Bool) (bank : CsrFile) : CsrFile :=
  fun csr ↦ finishWord (cold && bank.programmable) csr (bank.get csr)

/-- Neither hook changes whether memory attributes are programmable. -/
theorem programmable_beginBank (bank : CsrFile) :
    (beginBank bank).programmable = bank.programmable := rfl

theorem programmable_finishBank (cold : Bool) (bank : CsrFile) :
    (finishBank cold bank).programmable = bank.programmable := rfl

theorem beginBank_beginBank (bank : CsrFile) : beginBank (beginBank bank) = beginBank bank :=
  funext fun csr ↦ beginWord_beginWord csr (bank.get csr)

theorem finishBank_finishBank (cold : Bool) (bank : CsrFile) :
    finishBank cold (finishBank cold bank) = finishBank cold bank := by
  funext csr
  rw [finishBank, programmable_finishBank]
  exact finishWord_finishWord (cold && bank.programmable) csr (bank.get csr)

theorem finishBank_beginBank (cold : Bool) (bank : CsrFile) :
    finishBank cold (beginBank bank) = beginBank (finishBank cold bank) := by
  funext csr
  rw [finishBank, programmable_beginBank]
  exact finishWord_beginWord (cold && bank.programmable) csr (bank.get csr)

/-- The register accesses that set the caches up. -/
def cacheEvents (bank : CsrFile) : List Event :=
  [.csrRead .mcacheCtl (bank.get .mcacheCtl),
    .csrWrite .mcacheCtl (Vendor.bootCacheControl (bank.get .mcacheCtl)),
    .csrRead .mmiscCtl (bank.get .mmiscCtl),
    .csrWrite .mmiscCtl (bank.get .mmiscCtl ||| MiscControl.nonBlocking)]

theorem runs_enableCaches (bank : CsrFile) :
    ∃ text, Runs Vendor.enableCaches bank (cacheEvents bank ++ [.log .info text]) (.ok ()) :=
  ⟨_, (runs_csrRead _ _).bind_cons ((runs_csrWrite _ _ _).bind_cons
    (Runs.bind ((runs_csrRead _ _).bind_cons (runs_csrWrite _ _ _)) (runs_log _ _ _)))⟩

/-- The register accesses that come last, after the caches. -/
def closingEvents (cold : Bool) (bank : CsrFile) : List Event :=
  if cold then Table.clearEvents bank else []

theorem replay_closingEvents (cold : Bool) (bank : CsrFile) :
    bank.replay (closingEvents cold bank) =
      if cold && bank.programmable then (bank.set (.pmaCfg 0) 0).set (.pmaCfg 2) 0 else bank := by
  cases cold with
  | false => rfl
  | true =>
    rw [closingEvents, if_pos rfl, Table.clearEvents]
    cases bank.programmable <;> rfl

/-- What happens to the registers, in the order in which it happens. -/
theorem replay_finish (cold : Bool) (bank : CsrFile) :
    (bank.replay (cacheEvents bank)).replay
      (closingEvents cold (bank.replay (cacheEvents bank))) = finishBank cold bank := by
  have hprogrammable : (bank.replay (cacheEvents bank)).programmable = bank.programmable := rfl
  rw [replay_closingEvents, hprogrammable]
  funext csr
  rw [finishBank]
  cases cold && bank.programmable with
  | false => cases csr <;> rfl
  | true =>
    cases csr with
    | pmaCfg n =>
      show (if Csr.pmaCfg n = .pmaCfg 2 then 0 else if Csr.pmaCfg n = .pmaCfg 0 then 0
        else bank.get (.pmaCfg n)) = _
      by_cases h₂ : n = 2
      · simp [finishWord, h₂]
      · simp [finishWord, h₂]
    | _ => rfl

/-- Clearing leaves no entry on. -/
theorem configByte_finishBank {bank : CsrFile} (h : bank.programmable = true) (i : Fin entries) :
    (finishBank true bank).configByte i = 0 := by
  have hlt : i.val < 16 := i.isLt
  have hgroup : UInt8.ofNat (2 * (i.val / 8)) = 0 ∨ UInt8.ofNat (2 * (i.val / 8)) = 2 := by
    rcases (by omega : i.val / 8 = 0 ∨ i.val / 8 = 1) with h₀ | h₁
    · exact .inl (by rw [h₀]; rfl)
    · exact .inr (by rw [h₁]; rfl)
  have hword : (finishBank true bank).get (.pmaCfg (UInt8.ofNat (2 * (i.val / 8)))) = 0 :=
    if_pos ⟨h, hgroup⟩
  rw [CsrFile.configByte, hword]
  exact byteAt_zero (Nat.mod_lt _ (by decide))

/-! ### The second-level cache -/

namespace SecondLevelCache

/-- The control register of the controller at `base`. -/
def word (base : UInt64) (mem : Memory) : UInt32 :=
  mem.load (base + control) .word

/-- Memory once the cache is on. -/
def lit (base : UInt64) (mem : Memory) : Memory :=
  if word base mem &&& enabled = 0 then
    mem.store (base + control) (bytesOf 4 (word base mem ||| enabled))
  else mem

variable {base : UInt64} {m : Machine}

/-- The bit of a cache that is on can be set again. -/
theorem or_enabled_of_on {w : UInt32} (h : w &&& enabled ≠ 0) : w ||| enabled = w := by
  have hlow : w.toBitVec.getLsbD 0 = true := by
    rw [← Bool.not_eq_false]
    refine fun hoff ↦ h (UInt32.toBitVec_inj.1 ?_)
    show w.toBitVec &&& 1#32 = 0#32
    rw [BitVec.and_one_eq_setWidth_ofBool_getLsbD, hoff]
    rfl
  refine UInt32.toBitVec_inj.1 (BitVec.eq_of_getLsbD_eq fun i hi ↦ ?_)
  show (w.toBitVec ||| 1#32).getLsbD i = w.toBitVec.getLsbD i
  cases i with
  | zero => simp [hlow]
  | succ i => simp

theorem or_enabled_on (w : UInt32) : (w ||| enabled) &&& enabled ≠ 0 := by
  intro h
  have hlow := congrArg (fun v ↦ v.toBitVec.getLsbD 0) h
  simp [enabled] at hlow

/-- The bit of the cache is set, all others are as they were. -/
theorem word_lit (base : UInt64) (mem : Memory) :
    word base (lit base mem) = word base mem ||| enabled := by
  rw [lit]
  split
  · exact mem.load_store (base + control) .word _
  · next hon => exact (or_enabled_of_on hon).symm

theorem lit_lit (base : UInt64) (mem : Memory) : lit base (lit base mem) = lit base mem := by
  have hon : word base (lit base mem) &&& enabled ≠ 0 := by
    rw [word_lit]
    exact or_enabled_on _
  exact if_neg hon

/-- Turning the cache on changes no byte outside the register. -/
theorem byte_lit (base : UInt64) (mem : Memory) {a : UInt64}
    (h : 4 ≤ (a - (base + control)).toNat) : (lit base mem).byte a = mem.byte a := by
  have hlen (value : UInt32) : (bytesOf 4 value).length = 4 := length_bytesOf _ _
  rw [lit]
  split
  · rw [Memory.byte_store _ _ _ _ (by rw [hlen]; decide),
      List.getElem?_eq_none (by rw [hlen]; exact h), Option.getD_none]
  · rfl

/-- **On plain memory the cache is on in the end**, unless the watchdog does not allow for two
reads. A register is written only if it was off. -/
theorem exists_enable (hplain : m.device = .plain) (hfits : Block.Fits ⟨base, layout⟩ control)
    (hreads : m.watchdog.busReads + 2 ≤ m.watchdog.limit) :
    ∃ m' es, enable base m = .ok () m' ∧ m.Leads es m' ∧ m'.memory = lit base m.memory ∧
      m'.watchdog.busReads ≤ m.watchdog.busReads + 2 ∧ (∀ e ∈ es, e.csrWrite? = none) ∧
      (word base m.memory &&& enabled ≠ 0 → ∀ e ∈ es, e.busWrite? = none) := by
  have hconcludes : Concludes 2 (enable base) :=
    .bind hfits.concludes_read fun _ ↦ .ite
      (.bind (hfits.concludes_update 0 enabled) fun _ ↦ .log _ _)
      ((Concludes.pure _).mono (Nat.zero_le 1))
  obtain ⟨⟨⟩, m', hrun, -, hcount, -⟩ := hconcludes m (hplain ▸ Device.responds_plain) hreads
  obtain ⟨v, m₁, hread, hrest⟩ := bind_eq_ok_iff.1 hrun
  obtain ⟨rfl, hmemory, hplain₁⟩ := Block.read_plain hplain hread
  obtain ⟨hleads, -⟩ := Block.read_eq_ok hread
  change (if word base m.memory &&& enabled = 0 then _ else _ : Firmware Unit) m₁ = _ at hrest
  by_cases hoff : word base m.memory &&& enabled = 0
  · rw [if_pos hoff] at hrest
    obtain ⟨_, m₂, hupdate, hlog⟩ := bind_eq_ok_iff.1 hrest
    obtain ⟨hstore, hleads₂⟩ := Block.update_plain hplain₁ hupdate
    cases hlog
    refine ⟨_, _, hrun, hleads.trans (hleads₂.trans (.record m₂ rfl)), ?_, hcount, ?_,
      fun hon ↦ absurd hoff hon⟩
    · have hkeep (w : UInt32) : w &&& ~~~0 = w := by simp
      show m₂.memory = _
      rw [hstore, hmemory, hkeep, lit, if_pos hoff]
      rfl
    · exact List.forall_mem_cons.2 ⟨rfl, List.forall_mem_cons.2 ⟨rfl, List.forall_mem_cons.2
        ⟨rfl, List.forall_mem_singleton.2 rfl⟩⟩⟩
  · rw [if_neg hoff] at hrest
    cases hrest
    refine ⟨_, _, hrun, hleads, ?_, hcount, List.forall_mem_singleton.2 rfl,
      fun _ ↦ List.forall_mem_singleton.2 rfl⟩
    rw [hmemory, lit, if_neg hoff]

end SecondLevelCache

/-! ### The hooks -/

namespace Platform

variable {pl : Platform} {cold : Bool} {m : Machine}

/-- The platform once boot is finished. -/
def finished (pl : Platform) (cold : Bool) : Platform :=
  { pl with regions := if cold then .empty else pl.regions }

theorem finished_finished (pl : Platform) (cold : Bool) :
    (pl.finished cold).finished cold = pl.finished cold := by
  cases cold <;> rfl

theorem runs_beginBoot (pl : Platform) (cold : Bool) (bank : CsrFile) :
    ∃ es, Runs (pl.beginBoot cold) bank es (.ok ()) ∧ bank.replay es = beginBank bank := by
  refine ⟨_, Runs.bind ((runs_csrRead _ _).bind_cons (runs_csrWrite _ _ _)) (runs_log _ _ _), ?_⟩
  exact funext fun csr ↦ by cases csr <;> rfl

/-- What comes after the caches is a matter of the registers. -/
theorem runs_announce_of (pl : Platform) (cold : Bool) :
    ∃ text, ∀ bank, Runs (pl.announce cold) bank (closingEvents cold bank ++ [.log .info text])
      (.ok (pl.finished cold)) := by
  cases cold with
  | false => exact ⟨_, fun bank ↦ (runs_pure _ _).bind ((runs_log _ _ _).bind (runs_pure _ _))⟩
  | true => exact pl.runs_announce

/-- From `m`, finishing boot does `es` and ends in `m'`. -/
structure Finishes (pl : Platform) (cold : Bool) (m : Machine) (es : List Event) (m' : Machine) :
    Prop where
  /-- It ends. -/
  finishBoot_eq : pl.finishBoot cold m = .ok (pl.finished cold) m'
  /-- The events are on record. -/
  leads : m.Leads es m'
  /-- Each register holds what is made of its word. -/
  csrs_eq : m'.csrs = finishBank cold m.csrs
  /-- The second-level cache is on. -/
  memory_eq : m'.memory = SecondLevelCache.lit pl.settings.cacheBase m.memory
  /-- Two bus reads are enough. -/
  busReads_le : m'.watchdog.busReads ≤ m.watchdog.busReads + 2
  /-- A cache that is on is left alone. -/
  busWrite?_eq_none :
    SecondLevelCache.word pl.settings.cacheBase m.memory &&& SecondLevelCache.enabled ≠ 0 →
      ∀ e ∈ es, e.busWrite? = none
  /-- Only a cold boot touches the memory attribute entries, and only where the core has them. -/
  spares : (cold && m.csrs.programmable) = false → ∀ e ∈ es, Spares e

theorem aside_cacheEvents (bank : CsrFile) : ∀ e ∈ cacheEvents bank, Vendor.Aside e :=
  List.forall_mem_cons.2 ⟨Vendor.aside_csrRead _ _, List.forall_mem_cons.2
    ⟨Vendor.aside_csrWrite rfl _, List.forall_mem_cons.2
      ⟨Vendor.aside_csrRead _ _, List.forall_mem_singleton.2 (Vendor.aside_csrWrite rfl _)⟩⟩⟩

theorem isBus_closingEvents (cold : Bool) (bank : CsrFile) :
    ∀ e ∈ closingEvents cold bank, e.isBus = false := by
  cases cold with
  | false => exact List.forall_mem_nil _
  | true => exact Table.isBus_of_mem_clearEvents

theorem spares_closingEvents {bank : CsrFile} (h : (cold && bank.programmable) = false) :
    ∀ e ∈ closingEvents cold bank, Spares e := by
  cases cold with
  | false => exact List.forall_mem_nil _
  | true =>
    rw [Bool.true_and] at h
    rw [closingEvents, if_pos rfl, Table.clearEvents, h]
    exact List.forall_mem_singleton.2 (spares_of_csrWrite?_eq_none rfl)

/-- **Finishing boot ends on plain memory**, unless the watchdog does not allow for two reads. -/
theorem exists_finishes (pl : Platform) (cold : Bool) (hplain : m.device = .plain)
    (hfits : Block.Fits ⟨pl.settings.cacheBase, SecondLevelCache.layout⟩ SecondLevelCache.control)
    (hreads : m.watchdog.busReads + 2 ≤ m.watchdog.limit) :
    ∃ es m', pl.Finishes cold m es m' := by
  obtain ⟨text, hcaches⟩ := runs_enableCaches m.csrs
  let m₁ := m.perform (cacheEvents m.csrs ++ [.log .info text])
  obtain ⟨m₂, es, henable, hleads, hmemory, hcount, hcsr, hquiet⟩ :=
    SecondLevelCache.exists_enable (m := m₁) hplain hfits hreads
  obtain ⟨text', hclosing⟩ := pl.runs_announce_of cold
  have hcsrs : m₂.csrs = m.csrs.replay (cacheEvents m.csrs) := by
    rw [hleads.csrs_eq, CsrFile.replay_of_no_csrWrite hcsr, Machine.csrs_perform,
      CsrFile.replay_append]
    rfl
  -- what holds of the log and of each part holds of the whole
  have hall {p : Event → Prop} (hlog : ∀ level text, p (.log level text))
      (hopening : ∀ e ∈ cacheEvents m.csrs, p e) (hes : ∀ e ∈ es, p e)
      (hending : ∀ e ∈ closingEvents cold m₂.csrs, p e) :
      ∀ e ∈ cacheEvents m.csrs ++ [.log .info text] ++
        (es ++ (closingEvents cold m₂.csrs ++ [.log .info text'])), p e := by
    simp only [List.forall_mem_append, List.forall_mem_singleton]
    exact ⟨⟨hopening, hlog _ _⟩, hes, hending, hlog _ _⟩
  refine ⟨_, m₂.perform (closingEvents cold m₂.csrs ++ [.log .info text']), {
    finishBoot_eq := ?_
    leads := (m.leads_perform _).trans (hleads.trans (m₂.leads_perform _))
    csrs_eq := ?_
    memory_eq := hmemory
    busReads_le := hcount
    busWrite?_eq_none hon := ?_
    spares hclears := ?_ }⟩
  · rw [finishBoot_eq, enableCaches, bind_assoc, bind_of_ok hcaches.apply]
    exact (bind_of_ok henable).trans (hclosing m₂.csrs).apply
  · rw [Machine.csrs_perform, CsrFile.replay_append, hcsrs, ← replay_finish]
    rfl
  · have hbeside {e : Event} (h : e.isBus = false) : e.busWrite? = none := by
      cases e <;> first | rfl | cases h
    exact hall (fun _ _ ↦ rfl) (fun e he ↦ hbeside (aside_cacheEvents _ e he).isBus_eq)
      (hquiet hon) fun e he ↦ hbeside (isBus_closingEvents _ _ e he)
  · rw [← show m₂.csrs.programmable = m.csrs.programmable by rw [hcsrs]; rfl] at hclears
    exact hall (fun _ _ ↦ spares_of_csrWrite?_eq_none rfl)
      (fun e he ↦ (aside_cacheEvents _ e he).spares)
      (fun e he ↦ spares_of_csrWrite?_eq_none (hcsr e he)) (spares_closingEvents hclears)

end Platform

/-! ### Calling hooks again, and in the other order -/

/-- Registers and memory are the same on both machines. -/
structure SameState (m m' : Machine) : Prop where
  /-- The registers are. -/
  csrs_eq : m'.csrs = m.csrs
  /-- The memory is. -/
  memory_eq : m'.memory = m.memory

/-- From `m`, the hook before the console led to `m'`. -/
structure Begun (m m' : Machine) : Prop where
  /-- Misaligned accesses trap; no other bit of the register changes. -/
  mmiscCtl_eq : m'.csrs.get .mmiscCtl = m.csrs.get .mmiscCtl &&& ~~~0x40
  /-- Other registers are kept. -/
  get_eq : ∀ csr ≠ .mmiscCtl, m'.csrs.get csr = m.csrs.get csr
  /-- So is the memory. -/
  memory_eq : m'.memory = m.memory

/-- From `m`, boot was finished on a board with its second-level cache at `base`, and led to `m'` by
way of `es`. -/
structure Finished (base : UInt64) (cold : Bool) (m : Machine) (es : List Event) (m' : Machine) :
    Prop where
  /-- The caches are set up; no other bit of their register changes. -/
  mcacheCtl_eq : m'.csrs.get .mcacheCtl = (m.csrs.get .mcacheCtl ||| 0x2703) &&& ~~~0x4000
  /-- Loads do not block; no other bit of the register changes. -/
  mmiscCtl_eq : m'.csrs.get .mmiscCtl = m.csrs.get .mmiscCtl ||| 0x100
  /-- Other registers are kept, but for the configuration of memory attribute entries. -/
  get_eq : ∀ csr ∉ [.mcacheCtl, .mmiscCtl, .pmaCfg 0, .pmaCfg 2],
    m'.csrs.get csr = m.csrs.get csr
  /-- That is kept too, and nothing is written that concerns the entries, unless a cold boot finds
  that the core has them. -/
  spares : cold = false ∨ m.csrs.programmable = false →
    (∀ n, m'.csrs.get (.pmaCfg n) = m.csrs.get (.pmaCfg n)) ∧ ∀ e ∈ es, Spares e
  /-- Otherwise every entry is off. -/
  configByte_eq_zero : cold = true → m.csrs.programmable = true →
    ∀ i : Fin 16, m'.csrs.configByte i = 0
  /-- The second-level cache is on; no other bit of its register changes. -/
  control_eq : m'.memory.load (base + 8) .word = m.memory.load (base + 8) .word ||| 1
  /-- No byte beside that register changes. -/
  byte_eq : ∀ a, 4 ≤ (a - (base + 8)).toNat → m'.memory.byte a = m.memory.byte a
  /-- If the cache was on, nothing is written to the bus. -/
  busWrite?_eq_none : m.memory.load (base + 8) .word &&& 1 ≠ 0 → ∀ e ∈ es, e.busWrite? = none

theorem begun_perform {m : Machine} {es : List Event} (h : m.csrs.replay es = beginBank m.csrs) :
    Begun m (m.perform es) where
  mmiscCtl_eq := by
    rw [Machine.csrs_perform, h]
    rfl
  get_eq csr hcsr := by
    rw [Machine.csrs_perform, h]
    exact if_neg hcsr
  memory_eq := rfl

theorem Platform.Finishes.finished {pl : Platform} {cold : Bool} {m m' : Machine} {es : List Event}
    (h : pl.Finishes cold m es m') : Finished pl.settings.cacheBase cold m es m' where
  mcacheCtl_eq := by
    rw [h.csrs_eq]
    exact Vendor.bootCacheControl_eq _
  mmiscCtl_eq := by
    rw [h.csrs_eq]
    rfl
  get_eq csr hcsr := by
    simp only [List.mem_cons, List.not_mem_nil, or_false, not_or] at hcsr
    obtain ⟨hcache, hmisc, hfirst, hsecond⟩ := hcsr
    rw [h.csrs_eq]
    cases csr with
    | mcacheCtl => exact absurd rfl hcache
    | mmiscCtl => exact absurd rfl hmisc
    | pmaCfg n =>
      refine if_neg fun hn ↦ ?_
      rcases hn.2 with rfl | rfl
      · exact hfirst rfl
      · exact hsecond rfl
    | _ => rfl
  spares hkeeps := by
    have hclears : (cold && m.csrs.programmable) = false := Bool.and_eq_false_iff.2 hkeeps
    refine ⟨fun n ↦ ?_, h.spares hclears⟩
    rw [h.csrs_eq]
    show finishWord (cold && m.csrs.programmable) (.pmaCfg n) _ = _
    rw [hclears]
    rfl
  configByte_eq_zero hcold hprogrammable i := by
    rw [h.csrs_eq, hcold]
    exact configByte_finishBank hprogrammable i
  control_eq := by
    rw [h.memory_eq]
    exact SecondLevelCache.word_lit _ _
  byte_eq a ha := by
    rw [h.memory_eq]
    exact SecondLevelCache.byte_lit _ _ ha
  busWrite?_eq_none := h.busWrite?_eq_none

/-- **The hooks around the console do what they are for and nothing else, are as good once as twice,
and can be called in either order.** On plain memory that the control register of the second-level
cache lies inside of, finishing boot ends, whatever registers, memory and table hold. The watchdog
has to allow for four bus reads, which is what finishing boot twice takes at most. -/
theorem boot_hooks_idempotent_commute (pl : Platform) {m : Machine} (hplain : m.device = .plain)
    (hfits : Block.Fits ⟨pl.settings.cacheBase, SecondLevelCache.layout⟩ SecondLevelCache.control)
    (hreads : m.watchdog.busReads + 4 ≤ m.watchdog.limit) (cold cold' : Bool) :
    ∃ pl' es m', pl.finishBoot cold m = .ok pl' m' ∧ m.Leads es m' ∧
      pl' = { pl with regions := if cold then .empty else pl.regions } ∧
      Finished pl.settings.cacheBase cold m es m' ∧
      (∃ m₂, pl'.finishBoot cold m' = .ok pl' m₂ ∧ SameState m' m₂) ∧
      (∃ m₁ m₂, pl.beginBoot cold' m = .ok () m₁ ∧ Begun m m₁ ∧
        pl.beginBoot cold' m₁ = .ok () m₂ ∧ SameState m₁ m₂) ∧
      ∃ m₁ m₂ m₃, pl.beginBoot cold' m = .ok () m₁ ∧ pl.finishBoot cold m₁ = .ok pl' m₂ ∧
        pl'.beginBoot cold' m' = .ok () m₃ ∧ SameState m₂ m₃ := by
  obtain ⟨es, m', hfinish⟩ := pl.exists_finishes cold hplain hfits (by omega)
  have hcount := hfinish.busReads_le
  have hlimit := hfinish.leads.limit_eq
  refine ⟨_, es, m', hfinish.finishBoot_eq, hfinish.leads, rfl, hfinish.finished, ?_, ?_, ?_⟩
  · obtain ⟨es₂, m₂, hagain⟩ := (pl.finished cold).exists_finishes cold
      (hfinish.leads.device_eq.trans hplain) hfits (by omega)
    refine ⟨m₂, hagain.finishBoot_eq.trans (by rw [Platform.finished_finished]), ?_, ?_⟩
    · rw [hagain.csrs_eq, hfinish.csrs_eq, finishBank_finishBank]
    · rw [hagain.memory_eq, hfinish.memory_eq]
      exact SecondLevelCache.lit_lit _ _
  · obtain ⟨fs, hbegin, hbank⟩ := pl.runs_beginBoot cold' m.csrs
    obtain ⟨fs₂, hagain, hbank₂⟩ := pl.runs_beginBoot cold' (m.perform fs).csrs
    refine ⟨m.perform fs, (m.perform fs).perform fs₂, hbegin.apply, begun_perform hbank,
      hagain.apply, ?_, rfl⟩
    rw [Machine.csrs_perform, hbank₂, Machine.csrs_perform, hbank, beginBank_beginBank]
  · obtain ⟨fs, hbegin, hbank⟩ := pl.runs_beginBoot cold' m.csrs
    obtain ⟨fs₂, hlater, hbank₂⟩ := (pl.finished cold).runs_beginBoot cold' m'.csrs
    obtain ⟨es₂, m₂, hagain⟩ := pl.exists_finishes (m := m.perform fs) cold hplain hfits
      (Nat.le_trans (Nat.add_le_add_left (by decide) _) hreads)
    refine ⟨m.perform fs, m₂, _, hbegin.apply, hagain.finishBoot_eq, hlater.apply, ?_, ?_⟩
    · rw [Machine.csrs_perform, hbank₂, hfinish.csrs_eq, hagain.csrs_eq, Machine.csrs_perform,
        hbank, finishBank_beginBank]
    · exact hfinish.memory_eq.trans hagain.memory_eq.symm

/-- A cold boot of a core with every bit of its cache control set, of a table in use and of a
second-level cache that is off. -/
theorem boot_hooks_idempotent_commute_cold :
    ∃ (pl pl' : Platform) (m m' : Machine), pl.regions ≠ .empty ∧
      m.csrs.get .mcacheCtl = 0xFFFFFFFFFFFFFFFF ∧ m.csrs.configByte (5 : Fin 16) = 0x0F ∧
      m.memory.load (pl.settings.cacheBase + 8) .word = 0xFFFFFFFE ∧
      pl.finishBoot true m = .ok pl' m' ∧ pl'.regions = .empty ∧
      m'.csrs.get .mcacheCtl = 0xFFFFFFFFFFFFBFFF ∧ m'.csrs.configByte (5 : Fin 16) = 0 ∧
      m'.memory.load (pl.settings.cacheBase + 8) .word = 0xFFFFFFFF ∧
      ∃ m₂, pl'.finishBoot true m' = .ok pl' m₂ ∧ SameState m' m₂ := by
  let t : Table := ⟨Table.empty.slots.set 5 (some ⟨0x50000000, 0x2000, 0x1000⟩)⟩
  let pl : Platform := { settings := {}, regions := t }
  let m : Machine :=
    { watchdog := ⟨4, 0, 0, 0⟩
      memory := Memory.empty.store (pl.settings.cacheBase + 8) (bytesOf 4 0xFFFFFFFE)
      csrs := ((CsrFile.zero.set .mmscCfg 0x40000000).set .mcacheCtl 0xFFFFFFFFFFFFFFFF).set
        (.pmaCfg 0) 0x0F0000000000 }
  have hload : m.memory.load (pl.settings.cacheBase + 8) .word = 0xFFFFFFFE :=
    Memory.empty.load_store _ .word _
  have hfits : Block.Fits ⟨pl.settings.cacheBase, SecondLevelCache.layout⟩
      SecondLevelCache.control := by
    show 0x13400000 + 8 + 4 ≤ UInt64.size
    decide
  obtain ⟨pl', es, m', hrun, -, rfl, hfinished, hagain, -⟩ :=
    boot_hooks_idempotent_commute pl (m := m) rfl hfits (Nat.le_refl 4) true true
  have hcache : m'.csrs.get .mcacheCtl = 0xFFFFFFFFFFFFBFFF :=
    hfinished.mcacheCtl_eq.trans (by decide)
  have hcontrol := hfinished.control_eq
  rw [hload] at hcontrol
  exact ⟨pl, _, m, m', by decide, rfl, by decide, hload, hrun, rfl, hcache,
    hfinished.configByte_eq_zero rfl (by decide) _, hcontrol, hagain⟩

end Board

end BringUp
