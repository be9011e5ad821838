/-
Chip8.Proofs.Sampling — which keys an instruction sees.

A machine keeps two copies of the keys: `sampled`, the keys that were held
when they were last sampled, and the keypad of its state. A sample writes
the keypad only if the keys differ from `sampled`, so it counts on the two
being equal. A start clears the keypad and leaves `sampled` as it is.

* `Current` machines have equal copies. A sample keeps them equal, and
  then an instruction sees the keys that the adapter answered with.
* `Stale` machines were started with keys in `sampled` and have an empty
  keypad. A sample of the same keys leaves them stale
  (`stale_sample_same`), a sample of other keys makes them current
  (`current_sample_other`).

No call but a boot can make a current machine stale (`kept_keys`).
`keys_seen_iff` tells from the history of a machine which of the two it
is: after a restart instructions see no key until the keys change.
-/
import Chip8.Proofs.ControlFlow
import Chip8.Proofs.Preservation
import Chip8.Proofs.Stopping

namespace Chip8

/-- A keypad shows exactly the keys with the given codes if it is made from them. -/
theorem Keypad.shows_iff (p : Keypad) (codes : List Int) :
    (∀ k : Fin 16, p.get k = true ↔ (k.val : Int) ∈ codes) ↔ p = Keypad.ofKeys codes := by
  constructor
  · intro h
    refine Keypad.ext fun k => ?_
    rw [Keypad.get_ofKeys, Bool.eq_iff_iff, h k, List.contains_iff_mem]
  · rintro rfl k
    rw [Keypad.get_ofKeys, List.contains_iff_mem]

/-! ## Two copies of the keys -/

namespace Machine

section

variable {τ : Type} (m : Machine τ)

/-- The keypad of the state, blank without a state. -/
def keypad : Keypad :=
  match m.state? with
  | some state => state.keypad
  | none => Keypad.none

variable {m} in
theorem keypad_of_state {state : State} (h : m.state? = some state) : m.keypad = state.keypad := by
  unfold keypad
  rw [h]

theorem keypad_congr {m' : Machine τ} (h : m.state? = m'.state?) : m.keypad = m'.keypad := by
  unfold keypad
  rw [h]

/-- A change of the state that leaves the keys alone. -/
theorem keypad_mapState {f : State → State}
    (h : ∀ state, m.state? = some state → (f state).keypad = state.keypad) :
    (m.mapState f).keypad = m.keypad := by
  unfold keypad
  rw [m.state?_mapState]
  cases hstate : m.state? with
  | none => rfl
  | some state => exact h state hstate

@[simp] theorem sampled_mapState (f : State → State) : (m.mapState f).sampled = m.sampled := by
  obtain ⟨phase, h⟩ := m.mapState_frame f
  rw [h]

@[simp] theorem sampled_stop : m.stop.sampled = m.sampled := by
  obtain ⟨phase, h⟩ := m.stop_frame
  rw [h]

@[simp] theorem sampled_sample (codes : List Int) :
    (m.sample codes).sampled = Keypad.ofKeys codes := by
  obtain ⟨phase, h⟩ := m.sample_frame codes
  rw [h]

/-- A sample writes the keypad only if the keys differ from those sampled last. -/
theorem keypad_sample {state : State} (h : m.state? = some state) (codes : List Int) :
    (m.sample codes).keypad =
      if Keypad.ofKeys codes = m.sampled then m.keypad else Keypad.ofKeys codes := by
  have hsample := m.state?_sample codes
  rw [h, Option.map_some] at hsample
  rw [keypad_of_state hsample, keypad_of_state h]
  by_cases hsame : Keypad.ofKeys codes = m.sampled
  · rw [if_pos hsame, if_pos hsame]
  · rw [if_neg hsame, if_neg hsame]
    rfl

/-- **Only samples and further starts touch the keys**: whatever relates the two copies is kept
by all other changes. -/
theorem kept_keys (R : Keypad → Keypad → Prop) :
    Kept fun m : Machine τ => R m.sampled m.keypad where
  journal _ _ h := h
  stop m h := by
    rw [m.sampled_stop, m.stop.keypad_congr m.state?_stop]
    exact h
  halt _ _ h := h
  start m startedAt hbooting _ h := by
    have hblank : m.keypad = Keypad.none := by
      unfold keypad
      rw [m.state?_of_booting hbooting]
    rw [hblank] at h
    exact h
  commit m before after word hbefore hstep h := by
    obtain ⟨-, -, -, -, -, hkeys⟩ := State.step_flow hstep
    have hkeypad : (m.mapState fun _ => after).keypad = m.keypad := by
      refine m.keypad_mapState fun state hstate => ?_
      rw [hbefore] at hstate
      cases hstate
      exact hkeys
    show R (m.mapState fun _ => after).sampled (m.mapState fun _ => after).keypad
    rw [m.sampled_mapState, hkeypad]
    exact h
  tick m h := by
    show R (m.mapState State.tick).sampled (m.mapState State.tick).keypad
    rw [m.sampled_mapState, m.keypad_mapState (f := State.tick) fun _ _ => rfl]
    exact h

/-- Both copies of the keys are equal. -/
def Current : Prop := m.keypad = m.sampled

/-- The keypad is blank, and the given keys were sampled last. -/
def Stale (keys : Keypad) : Prop := m.sampled = keys ∧ m.keypad = Keypad.none

end

section

variable {τ : Type} {m : Machine τ}

theorem kept_current : Kept (Current : Machine τ → Prop) :=
  kept_keys fun sampled keypad => keypad = sampled

theorem kept_stale (keys : Keypad) : Kept fun m : Machine τ => m.Stale keys :=
  kept_keys fun sampled keypad => sampled = keys ∧ keypad = Keypad.none

theorem current_sample {state : State} (hstate : m.state? = some state) (codes : List Int)
    (h : m.Current) : (m.sample codes).Current := by
  unfold Current at h ⊢
  rw [m.keypad_sample hstate, m.sampled_sample]
  by_cases hsame : Keypad.ofKeys codes = m.sampled
  · rw [if_pos hsame, h, hsame]
  · rw [if_neg hsame]

/-- A sample presses the keys in the state of a current machine. If it leaves the keypad as it is,
that is because the same keys are pressed already. -/
theorem state?_sample_of_current {state : State} (hstate : m.state? = some state) (h : m.Current)
    (codes : List Int) : (m.sample codes).state? = some (state.press codes) := by
  rw [m.state?_sample, hstate, Option.map_some]
  by_cases hsame : Keypad.ofKeys codes = m.sampled
  · have hkeypad : state.keypad = Keypad.ofKeys codes := by
      rw [hsame, ← h, keypad_of_state hstate]
    rw [if_pos hsame, State.press, ← hkeypad]
  · rw [if_neg hsame]

theorem current_sample_other {keys : Keypad} {state : State} (hstate : m.state? = some state)
    {codes : List Int} (hother : Keypad.ofKeys codes ≠ keys) (h : m.Stale keys) :
    (m.sample codes).Current := by
  unfold Current
  rw [m.keypad_sample hstate, m.sampled_sample, h.1, if_neg hother]

theorem stale_sample_same {keys : Keypad} {codes : List Int} (hsame : Keypad.ofKeys codes = keys)
    (h : m.Stale keys) : (m.sample codes).Stale keys := by
  have heq : m.sample codes = m := by
    unfold sample
    rw [if_pos (hsame.trans h.1.symm)]
  rw [heq]
  exact h

/-- A start makes a machine stale, whatever was sampled before it. -/
theorem stale_started (startedAt : τ) : (m.started startedAt).Stale m.sampled := ⟨rfl, rfl⟩

end

end Machine

/-! ## Histories -/

namespace Rig

variable {ω τ : Type} [HasRates τ] (host : Host ω τ)

/-- A cycle would sample other keys than the given ones. -/
def SamplesOther (keys : Keypad) (s : Rig ω τ) : Prop :=
  ∃ codes seen, s.fetches? host = some (codes, seen) ∧ Keypad.ofKeys codes ≠ keys

/-- The state that a fetch reads is the one of the sampled machine. -/
theorem keypad_of_fetches {s : Rig ω τ} {codes : List Int} {seen : State}
    (h : s.fetches? host = some (codes, seen)) :
    ∃ u state, s.ready host = (u, none) ∧ u.machine.state? = some state ∧
      (u.machine.sample codes).keypad = seen.keypad := by
  obtain ⟨u, hready, -, hseen⟩ := s.fetches?_eq_some host h
  obtain ⟨g, hg⟩ := s.running_of_ready host hready
  obtain ⟨before, hbefore⟩ := u.machine.state?_of_running hg
  exact ⟨u, before, hready, hbefore, Machine.keypad_of_state hseen⟩

/-- A current machine shows an instruction the keys that the adapter answers with. -/
theorem seen_of_current {s : Rig ω τ} (h : s.machine.Current) {codes : List Int} {seen : State}
    (hfetches : s.fetches? host = some (codes, seen)) : seen.keypad = Keypad.ofKeys codes := by
  obtain ⟨u, state, hready, hstate, hseen⟩ := s.keypad_of_fetches host hfetches
  have hu := Machine.kept_current.ready host h hready
  rw [← hseen, ← u.machine.sampled_sample codes]
  exact Machine.current_sample hstate codes hu

/-- A stale machine shows an instruction other keys, and no key at all if they are the same. -/
theorem seen_of_stale {s : Rig ω τ} {keys : Keypad} (h : s.machine.Stale keys)
    {codes : List Int} {seen : State} (hfetches : s.fetches? host = some (codes, seen)) :
    seen.keypad = if Keypad.ofKeys codes = keys then Keypad.none else Keypad.ofKeys codes := by
  obtain ⟨u, state, hready, hstate, hseen⟩ := s.keypad_of_fetches host hfetches
  obtain ⟨hsampled, hblank⟩ := (Machine.kept_stale keys).ready host h hready
  rw [← hseen, u.machine.keypad_sample hstate, hsampled, hblank]

/-- A cycle makes a stale machine current if it samples other keys, and leaves it stale if not. -/
theorem stale_cycle [OfNat τ 0] [Sub τ] {s : Rig ω τ} {keys : Keypad} (h : s.machine.Stale keys) :
    (s.SamplesOther host keys → (s.cycle host).1.machine.Current) ∧
      (¬ s.SamplesOther host keys → (s.cycle host).1.machine.Stale keys) := by
  have hkept := Machine.kept_stale (τ := τ) keys
  rcases hready : s.ready host with ⟨u, _ | e⟩
  · have hu := hkept.ready host h hready
    obtain ⟨g, hg⟩ := s.running_of_ready host hready
    obtain ⟨state, hstate⟩ := u.machine.state?_of_running hg
    obtain ⟨seen, -, hfetches⟩ := s.fetches?_of_ready host hready
    constructor
    · rintro ⟨codes, seen', hfetches', hother⟩
      obtain ⟨rfl, -⟩ := Prod.mk.inj (Option.some.inj (hfetches.symm.trans hfetches'))
      exact Machine.kept_current.cycle_of_sample host hready
        (Machine.current_sample_other hstate hother hu)
    · intro hsame
      refine hkept.cycle_of_sample host hready (Machine.stale_sample_same ?_ hu)
      by_contra hother
      exact hsame ⟨_, seen, hfetches, hother⟩
  · have hu := hkept.ready host h hready
    have hcycle := s.cycle_of_not_ready host hready
    constructor
    · rintro ⟨codes, seen, hfetches, -⟩
      obtain ⟨v, hv, -⟩ := s.fetches?_eq_some host hfetches
      rw [hready] at hv
      cases hv
    · intro _
      rw [hcycle]
      exact hu

variable [OfNat τ 0] [OfNat τ 1] [OfNat τ 4] [Add τ] [Sub τ] [Mul τ] [Div τ] [LE τ]
  [DecidableLE τ]

/-- Some cycle of a history samples other keys than the given ones. -/
def Resamples (keys : Keypad) (s : Rig ω τ) : List (Call ω) → Prop
  | [] => False
  | c :: rest =>
    (c = .cycle ∧ s.SamplesOther host keys) ∨
      ∃ t, s.after host c = some t ∧ t.Resamples keys rest

/-- Without a boot a current machine stays current. -/
theorem current_afterAll {s t : Rig ω τ} {calls : List (Call ω)} (hboot : Call.boot ∉ calls)
    (h : s.machine.Current) (hcalls : s.afterAll host calls = some t) : t.machine.Current :=
  Machine.kept_current.afterAll host
    (fun _ codes _ hstate hcurrent => Machine.current_sample hstate codes hcurrent)
    (fun hmem => absurd hmem hboot) h hcalls

/-- **What a stale machine becomes** without a boot: it halts, or a cycle samples other keys and
makes it current, or it stays stale. -/
theorem stale_afterAll {s t : Rig ω τ} {keys : Keypad} {calls : List (Call ω)}
    (hboot : Call.boot ∉ calls) (h : s.machine.Stale keys)
    (hcalls : s.afterAll host calls = some t) :
    t.machine.status = .halted ∨ (s.Resamples host keys calls ∧ t.machine.Current) ∨
      (¬ s.Resamples host keys calls ∧ t.machine.Stale keys) := by
  induction calls generalizing s with
  | nil =>
    cases hcalls
    exact .inr (.inr ⟨id, h⟩)
  | cons c rest ih =>
    obtain ⟨u, hu, hrest⟩ := (afterAll_cons_eq_some host).mp hcalls
    have hrestboot : Call.boot ∉ rest := fun hmem => hboot (List.mem_cons_of_mem c hmem)
    have hresamples : s.Resamples host keys (c :: rest) ↔
        (c = .cycle ∧ s.SamplesOther host keys) ∨ u.Resamples host keys rest := by
      rw [Resamples, hu]
      simp only [Option.some.injEq, exists_eq_left']
    by_cases hcycle : c = .cycle
    · subst hcycle
      cases hu
      obtain ⟨hother, hsame⟩ := stale_cycle host h
      by_cases hsamples : s.SamplesOther host keys
      · exact .inr (.inl ⟨hresamples.mpr (.inl ⟨rfl, hsamples⟩),
          current_afterAll host hrestboot (hother hsamples) hrest⟩)
      · rw [hresamples.trans (or_iff_right fun hfirst => hsamples hfirst.2)]
        exact ih hrestboot (hsame hsamples) hrest
    · have hfirst : c ≠ .boot := fun heq => hboot (heq ▸ List.mem_cons_self)
      rcases (Machine.kept_stale keys).after_other host hfirst hcycle h hu with hhalted | hstale
      · exact .inl (halted_afterAll host hhalted hrest)
      · rw [hresamples.trans (or_iff_right fun hfirst => hcycle hfirst.1)]
        exact ih hrestboot hstale hrest

/-! ## What instructions see -/

/-- A new machine is current, and one that was just booted is stale, unless the boot came too
late. -/
theorem current_or_stale {s u : Rig ω τ} {before : List (Call ω)}
    {program : List UInt8} {config : Config τ} {threshold : Level}
    (hnew : s.machine = Machine.new program config threshold) (haccepted : s.machine.refusal = none)
    (hbefore : before = [] ∨ ∃ earlier, before = earlier ++ [.boot])
    (hu : s.afterAll host before = some u) :
    u.machine.status = .halted ∨ (u.machine.sampled = Keypad.none ∧ u.machine.Current) ∨
      u.machine.Stale u.machine.sampled := by
  rcases hbefore with rfl | ⟨earlier, rfl⟩
  · cases hu
    rw [hnew]
    exact .inr (.inl ⟨rfl, rfl⟩)
  · rw [afterAll_append] at hu
    obtain ⟨v, hv, hboot⟩ := Option.bind_eq_some_iff.mp hu
    obtain rfl : (v.boot host).1 = u := Option.some.inj hboot
    by_cases hlive : v.machine.status = .halted
    · rw [v.boot_of_halted host hlive]
      exact .inl hlive
    · have hvetted : v.machine.Vetted none :=
        (Machine.kept_vetted none).afterAll host (Machine.vetted_sample none)
          (fun _ => Machine.vetted_started none) ⟨haccepted, fun _ => rfl⟩ hv
      obtain ⟨journal, hstarted⟩ := v.boot_of_accepted host hlive hvetted.1
      rw [hstarted]
      exact .inr (.inr (v.machine.stale_started (host.clock v.world).1))

/-- Since the last boot the keys have been looked at anew, or there is nothing to look at anew:
`u` is what the boot left, `after` the history since, and `codes` are the codes of the keys now. -/
def Renewed (u : Rig ω τ) (after : List (Call ω)) (codes : List Int) : Prop :=
  u.machine.sampled = Keypad.none ∨ Keypad.ofKeys codes ≠ u.machine.sampled ∨
    u.Resamples host u.machine.sampled after

/-- The keys are seen if they are renewed, and otherwise none is. -/
theorem seen_cases {u t : Rig ω τ} {after : List (Call ω)}
    (hu : (u.machine.sampled = Keypad.none ∧ u.machine.Current) ∨ u.machine.Stale u.machine.sampled)
    (hboot : Call.boot ∉ after) (ht : u.afterAll host after = some t) {codes : List Int}
    {seen : State} (hfetches : t.fetches? host = some (codes, seen)) :
    (u.Renewed host after codes ∧ seen.keypad = Keypad.ofKeys codes) ∨
      (¬ u.Renewed host after codes ∧ seen.keypad = Keypad.none) := by
  rcases hu with ⟨hnone, hcurrent⟩ | hstale
  · exact .inl ⟨.inl hnone, seen_of_current host (current_afterAll host hboot hcurrent ht) hfetches⟩
  · rcases stale_afterAll host hboot hstale ht with hhalted | ⟨hagain, hcurrent⟩ | ⟨hnever, hstale⟩
    · exact absurd hhalted (t.live_of_fetches host hfetches)
    · exact .inl ⟨.inr (.inr hagain), seen_of_current host hcurrent hfetches⟩
    · have hseen := seen_of_stale host hstale hfetches
      by_cases hsame : Keypad.ofKeys codes = u.machine.sampled
      · rw [if_pos hsame] at hseen
        by_cases hnone : u.machine.sampled = Keypad.none
        · exact .inl ⟨.inl hnone, hseen.trans (hsame.trans hnone).symm⟩
        · refine .inr ⟨?_, hseen⟩
          rintro (h | h | h)
          · exact hnone h
          · exact h hsame
          · exact hnever h
      · rw [if_neg hsame] at hseen
        exact .inl ⟨.inr (.inl hsame), hseen⟩

/-- Keys that are not renewed are not those that an empty keypad shows. -/
theorem ofKeys_ne_none_of_not_renewed {u : Rig ω τ} {after : List (Call ω)} {codes : List Int}
    (h : ¬ u.Renewed host after codes) : Keypad.ofKeys codes ≠ Keypad.none := by
  intro hempty
  by_cases hsame : Keypad.ofKeys codes = u.machine.sampled
  · exact h (.inl (hsame.symm.trans hempty))
  · exact h (.inr (.inl hsame))

/-- **Which keys an instruction sees.** Let the machine be new, let `before` be the history up to
its last boot, if it has one, and `after` the rest. A cycle that fetches does so with the keys
that the adapter answers with exactly if no keys were sampled before the last boot, or these keys
differ from those sampled last before it, or some cycle since has sampled others. If not, it sees
no key at all. Either way it carries the instruction out on the state that it fetched from. -/
theorem keys_seen_iff {s u t : Rig ω τ} {before after : List (Call ω)} {program : List UInt8}
    {config : Config τ} {threshold : Level}
    (hnew : s.machine = Machine.new program config threshold)
    (hbefore : before = [] ∨ ∃ earlier, before = earlier ++ [.boot])
    (hu : s.afterAll host before = some u) (hboot : Call.boot ∉ after)
    (ht : u.afterAll host after = some t) {codes : List Int} {seen : State}
    (hfetches : t.fetches? host = some (codes, seen)) :
    ((∀ k : Fin 16, seen.keypad.get k = true ↔ (k.val : Int) ∈ codes) ↔
      u.machine.sampled = Keypad.none ∨ Keypad.ofKeys codes ≠ u.machine.sampled ∨
        u.Resamples host u.machine.sampled after) ∧
    ((∀ k : Fin 16, seen.keypad.get k = true ↔ (k.val : Int) ∈ codes) ∨
      seen.keypad = Keypad.none) ∧
    (∀ f, seen.step = .error f → (t.cycle host).2 = some (.fault f)) ∧
    ∀ next word, seen.step = .ok (next, word) →
      ∃ v : Rig ω τ, v.machine.state? = some next ∧ t.cycle host = v.notify host ⟨word⟩ := by
  have hst : s.afterAll host (before ++ after) = some t := by
    rw [afterAll_append, hu]
    exact ht
  have hbooting : s.machine.status = .booting := by
    rw [hnew]
    rfl
  have haccepted := refusal_of_fetches host hbooting hst hfetches
  rcases current_or_stale host hnew haccepted hbefore hu with hhalted | hkeys
  · exact absurd (halted_afterAll host hhalted ht) (t.live_of_fetches host hfetches)
  obtain ⟨w, -, -, hseen, hfault, hcommit⟩ := t.cycle_of_fetches host hfetches
  rw [Keypad.shows_iff]
  refine ⟨?_, ?_, fun f hstep => by rw [hfault f hstep], fun next word hstep =>
    ⟨⟨(w.machine.sample codes).commit ⟨word⟩ next, w.world⟩, ?_, hcommit next word hstep⟩⟩
  · show _ ↔ u.Renewed host after codes
    rcases seen_cases host hkeys hboot ht hfetches with ⟨hrenewed, hkeypad⟩ | ⟨hstale, hkeypad⟩
    · exact iff_of_true hkeypad hrenewed
    · refine iff_of_false (fun hshown => ?_) hstale
      exact ofKeys_ne_none_of_not_renewed host hstale (hshown.symm.trans hkeypad)
  · rcases seen_cases host hkeys hboot ht hfetches with ⟨-, hkeypad⟩ | ⟨-, hkeypad⟩
    · exact .inl hkeypad
    · exact .inr hkeypad
  · rw [Machine.state?_commit, hseen]
    rfl

end Rig

/-! ## A host that holds keys -/

/-- A host whose world is the list of the keys that are held. -/
def Host.holding : Host (List Int) Rat where
  clock keys := (0, keys)
  stamp _ := 0
  pressedKeys keys := keys
  draw _ keys := (keys, none)
  sleep _ keys := (keys, .ok false)
  observer _ _ _ := ([], none)

/-- A machine whose program passes over its second word if the key 0 is held, which it is. -/
def Rig.awaiting : Rig (List Int) Rat :=
  ⟨Machine.new [0xE0, 0x9E, 0x12, 0x00, 0x12, 0x00] Config.exact .info, [0]⟩

/-- After a restart a key is seen that was not held before it, and a code of no key is not. -/
theorem Rig.other_key_seen_after_restart :
    ∃ t codes seen, awaiting.afterAll Host.holding
        ([.boot, .cycle, .boot] ++ [.affect fun _ => [1, 16]]) = some t ∧
      t.fetches? Host.holding = some (codes, seen) ∧ codes = [1, 16] ∧
      ∀ k : Fin 16, seen.keypad.get k = true ↔ (k.val : Int) ∈ codes := by
  have hsampled : (awaiting.afterAll Host.holding [.boot, .cycle, .boot]).map
      (fun u => u.machine.sampled) = some (Keypad.ofKeys [0]) := by
    decide +kernel
  have hcodes : (awaiting.afterAll Host.holding
      ([.boot, .cycle, .boot] ++ [.affect fun _ => [1, 16]])).bind
        (fun t => (t.fetches? Host.holding).map Prod.fst) = some [1, 16] := by
    decide +kernel
  obtain ⟨u, hu, hzero⟩ := Option.map_eq_some_iff.mp hsampled
  obtain ⟨t, hst, hfirst⟩ := Option.bind_eq_some_iff.mp hcodes
  obtain ⟨⟨codes, seen⟩, hfetches, hcodes⟩ := Option.map_eq_some_iff.mp hfirst
  have ht : u.afterAll Host.holding [.affect fun _ => [1, 16]] = some t := by
    rw [afterAll_append, hu] at hst
    exact hst
  have hother : Keypad.ofKeys codes ≠ u.machine.sampled := by
    have hdiffer : Keypad.ofKeys [1, 16] ≠ Keypad.ofKeys [0] := by decide +kernel
    rw [hzero, show codes = [1, 16] from hcodes]
    exact hdiffer
  have hboot : Call.boot ∉ [Call.affect fun _ : List Int => [1, 16]] := by simp
  have hseen := keys_seen_iff Host.holding rfl (.inr ⟨[.boot, .cycle], rfl⟩) hu hboot ht hfetches
  exact ⟨t, codes, seen, hst, hfetches, hcodes, hseen.1.mpr (.inr (.inl hother))⟩

/-- **A held key is lost at a restart**: the first instruction after it sees no key, although the
adapter answers with the key 0. -/
theorem Rig.held_key_unseen_after_restart :
    ((awaiting.afterAll Host.holding [.boot, .cycle, .boot]).bind fun t =>
      (t.fetches? Host.holding).map fun (codes, seen) => (codes, seen.keypad.get 0)) =
        some ([0], false) := by
  decide +kernel

end Chip8
