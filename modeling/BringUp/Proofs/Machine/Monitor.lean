import BringUp.Proofs.Machine.Footprint

/-!
# Monitors

A monitor watches events one by one. It has a state, which every event moves on, and in each state
it allows some events and not others. A list of events is accepted if every event is allowed in the
state that the ones before it lead to, so acceptance says something about every prefix of the list
(`Monitor.Accepts.allows`).

`Firmware.Obeys mon s x Q R` is a triple: from any machine, with the monitor in state `s`, what the
action `x` emits is accepted, `Q` holds of its value and the state afterwards if it ends, and `R`
holds of that state if it stops. Both exits matter, because an action may stop anywhere between two
accesses.
-/

namespace BringUp

/-- A watcher of events. -/
structure Monitor (σ : Type) where
  /-- The state after an event. -/
  next : σ → Event → σ
  /-- Whether an event may happen in a state. -/
  allows : σ → Event → Prop

namespace Monitor

variable {σ : Type} {mon : Monitor σ} {s : σ} {e : Event} {es fs : List Event}

/-- The state after events, in order. -/
def after (mon : Monitor σ) (s : σ) (es : List Event) : σ :=
  es.foldl mon.next s

/-- Each event may happen in the state that the ones before it lead to. -/
def Accepts (mon : Monitor σ) : σ → List Event → Prop
  | _, [] => True
  | s, e :: es => mon.allows s e ∧ mon.Accepts (mon.next s e) es

/-- The event may happen and does not move the monitor. -/
def Ignores (mon : Monitor σ) (s : σ) (e : Event) : Prop :=
  mon.allows s e ∧ mon.next s e = s

@[simp] theorem after_nil : mon.after s [] = s := rfl

@[simp] theorem after_append : mon.after s (es ++ fs) = mon.after (mon.after s es) fs :=
  List.foldl_append

theorem accepts_append :
    mon.Accepts s (es ++ fs) ↔ mon.Accepts s es ∧ mon.Accepts (mon.after s es) fs := by
  induction es generalizing s with
  | nil => exact ⟨fun h ↦ ⟨trivial, h⟩, fun h ↦ h.2⟩
  | cons e es ih =>
    rw [List.cons_append, Accepts, Accepts, ih, and_assoc]
    rfl

/-- Every event of an accepted list was allowed when it happened. -/
theorem Accepts.allows {pre post : List Event} (h : mon.Accepts s (pre ++ e :: post)) :
    mon.allows (mon.after s pre) e :=
  (accepts_append.1 h).2.1

theorem accepts_of_ignores (h : ∀ e ∈ es, mon.Ignores s e) :
    mon.Accepts s es ∧ mon.after s es = s := by
  induction es with
  | nil => exact ⟨trivial, rfl⟩
  | cons e es ih =>
    obtain ⟨hallows, hnext⟩ := h e List.mem_cons_self
    obtain ⟨haccepts, hafter⟩ := ih fun e' he' ↦ h e' (List.mem_cons_of_mem e he')
    refine ⟨⟨hallows, hnext.symm ▸ haccepts⟩, ?_⟩
    show mon.after (mon.next s e) es = s
    rw [hnext, hafter]

end Monitor

/-! ### Triples -/

namespace Firmware

variable {σ α β : Type} {mon : Monitor σ} {s : σ} {x : Firmware α} {f : α → Firmware β}
  {Q : α → σ → Prop} {P : β → σ → Prop} {R R' : σ → Prop}

/-- What the action emits is accepted from `s`, and leads to a state of which `Q` holds if the
action ends, and `R` if it stops. -/
def Obeys (mon : Monitor σ) (s : σ) (x : Firmware α) (Q : α → σ → Prop) (R : σ → Prop) : Prop :=
  ∀ m : Machine, ∃ es, m.Leads es (x.after m) ∧ mon.Accepts s es ∧
    match x m with
    | .ok a _ => Q a (mon.after s es)
    | .error _ _ => R (mon.after s es)

theorem Obeys.of_ok (h : Obeys mon s x Q R) {m m' : Machine} {a : α} (hx : x m = .ok a m') :
    ∃ es, m.Leads es m' ∧ mon.Accepts s es ∧ Q a (mon.after s es) := by
  obtain ⟨es, hes, haccepts, hpost⟩ := h m
  rw [after_of_ok hx] at hes
  rw [hx] at hpost
  exact ⟨es, hes, haccepts, hpost⟩

theorem Obeys.of_error (h : Obeys mon s x Q R) {m m' : Machine} {stop : Stop}
    (hx : x m = .error stop m') :
    ∃ es, m.Leads es m' ∧ mon.Accepts s es ∧ R (mon.after s es) := by
  obtain ⟨es, hes, haccepts, hpost⟩ := h m
  rw [after_of_error hx] at hes
  rw [hx] at hpost
  exact ⟨es, hes, haccepts, hpost⟩

theorem Obeys.of_runs
    (hok : ∀ m a m', x m = .ok a m' →
      ∃ es, m.Leads es m' ∧ mon.Accepts s es ∧ Q a (mon.after s es))
    (herr : ∀ m stop m', x m = .error stop m' →
      ∃ es, m.Leads es m' ∧ mon.Accepts s es ∧ R (mon.after s es)) : Obeys mon s x Q R := by
  intro m
  rcases h : x m with ⟨a, m'⟩ | ⟨stop, m'⟩
  · rw [after_of_ok h]
    exact hok m a m' h
  · rw [after_of_error h]
    exact herr m stop m' h

/-- An action whose events the monitor ignores leaves it where it is. -/
theorem Obeys.of_emits (h : Emits (mon.Ignores s) x) (hQ : ∀ a, Q a s) (hR : R s) :
    Obeys mon s x Q R := by
  refine .of_runs (fun m a m' hx ↦ ?_) fun m stop m' hx ↦ ?_
  · obtain ⟨es, hes, hignores⟩ := h.of_ok hx
    obtain ⟨haccepts, hafter⟩ := Monitor.accepts_of_ignores hignores
    exact ⟨es, hes, haccepts, by rw [hafter]; exact hQ a⟩
  · obtain ⟨es, hes, hignores⟩ := h.of_error hx
    obtain ⟨haccepts, hafter⟩ := Monitor.accepts_of_ignores hignores
    exact ⟨es, hes, haccepts, by rw [hafter]; exact hR⟩

theorem Obeys.pure {a : α} (h : Q a s) : Obeys mon s (pure a : Firmware α) Q R :=
  fun m ↦ ⟨[], .refl m, trivial, h⟩

/-- The second action starts where the first one left machine and monitor. -/
theorem Obeys.bind (hx : Obeys mon s x Q R) (hf : ∀ a s', Q a s' → Obeys mon s' (f a) P R) :
    Obeys mon s (x >>= f) P R := by
  refine .of_runs (fun m b m' h ↦ ?_) fun m stop m' h ↦ ?_
  · obtain ⟨a, m₁, hfirst, hrest⟩ := bind_eq_ok_iff.1 h
    obtain ⟨es, hes, haccepts, hmid⟩ := hx.of_ok hfirst
    obtain ⟨fs, hfs, haccepts', hpost⟩ := (hf a _ hmid).of_ok hrest
    rw [← Monitor.after_append] at hpost
    exact ⟨es ++ fs, hes.trans hfs, Monitor.accepts_append.2 ⟨haccepts, haccepts'⟩, hpost⟩
  · rcases bind_eq_error_iff.1 h with hfirst | ⟨a, m₁, hfirst, hrest⟩
    · exact hx.of_error hfirst
    · obtain ⟨es, hes, haccepts, hmid⟩ := hx.of_ok hfirst
      obtain ⟨fs, hfs, haccepts', hpost⟩ := (hf a _ hmid).of_error hrest
      rw [← Monitor.after_append] at hpost
      exact ⟨es ++ fs, hes.trans hfs, Monitor.accepts_append.2 ⟨haccepts, haccepts'⟩, hpost⟩

/-- An action before it that the monitor ignores does not matter. -/
theorem Obeys.skip (hx : Emits (mon.Ignores s) x) (hR : R s) (hf : ∀ a, Obeys mon s (f a) P R) :
    Obeys mon s (x >>= f) P R := by
  have hkeeps : Obeys mon s x (fun _ s' ↦ s' = s) R := .of_emits hx (fun _ ↦ rfl) hR
  refine hkeeps.bind fun a s' hs' ↦ ?_
  rw [hs']
  exact hf a

/-- Logging does not stop. -/
theorem Obeys.log {level : Level} {text : String} {Q : Unit → σ → Prop}
    (h : mon.Ignores s (.log level text)) (hQ : Q () s) :
    Obeys mon s (log level text) Q R := by
  intro m
  refine ⟨[.log level text], .record m rfl, ⟨h.1, trivial⟩, ?_⟩
  show Q () (mon.next s (.log level text))
  rw [h.2]
  exact hQ

/-- Once stops are caught, a stop is one of the ways to end. -/
theorem Obeys.observe (h : Obeys mon s x Q R) :
    Obeys mon s x.observe
      (fun outcome s' ↦ match outcome with
        | .ok a => Q a s'
        | .error _ => R s') R' := by
  refine .of_runs (fun m outcome m' hobserve ↦ ?_) fun m stop m' hobserve ↦ ?_
  · unfold Firmware.observe at hobserve
    split at hobserve
    · next hx =>
      cases hobserve
      exact h.of_ok hx
    · next hx =>
      cases hobserve
      exact h.of_error hx
  · unfold Firmware.observe at hobserve
    split at hobserve <;> cases hobserve

end Firmware

/-- A register write moves the monitor by the write, or stops before it. -/
theorem Block.obeys_write {σ : Type} {mon : Monitor σ} {s : σ} {b : Block} {offset : UInt64}
    {value : UInt32} {Q : Unit → σ → Prop} {R : σ → Prop} {e : Event}
    (he : e = .busWrite (b.layout.width offset) (b.base + offset)
      ((b.layout.width offset).truncate value))
    (hallows : mon.allows s e) (hQ : Q () (mon.next s e)) (hR : R s) :
    Firmware.Obeys mon s (b.write offset value : Firmware Unit) Q R := by
  refine .of_runs (fun m _ m' h ↦ ?_) fun m stop m' h ↦ ?_
  · exact ⟨[e], he ▸ write_eq_ok h, ⟨hallows, trivial⟩, hQ⟩
  · rw [(write_eq_error h).1]
    exact ⟨[], .refl m, trivial, hR⟩

end BringUp
