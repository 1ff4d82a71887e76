import ClockedCuckoo.Proofs.Batch
import ClockedCuckoo.Proofs.Twins

/-! The delete of a key that is not stored. It changes no slot, and what comes after it differs only
where an insert has to evict: the probe of the delete sets the next victim anew. -/

namespace ClockedCuckoo

theorem Lane.consume_probe {l : Lane} (h : l.bank.results = []) (key : Key) :
    (l.cycle { probe := some key }).cycle { consume := true } = l := by
  obtain ⟨⟨slots, hasher, depth, results⟩, gate⟩ := l
  obtain rfl : results = [] := h
  rfl

namespace Engine

variable {e s : Engine} {keys : List Key} {lines : Lines} {key : Key}

theorem Accounted.keys_nil_of_atRest (h : e.Accounted keys) (hrest : e.atRest = true) :
    keys = [] := by
  obtain ⟨hp, hcount, -⟩ := atRest_eq_true.1 hrest
  have hidle := h.idle hp
  exact List.length_eq_zero_iff.1 (by omega)

theorem reads_of_lanes_map {c : Command} (hl : s.lanes = e.lanes.map (·.cycle c))
    (hw : c.write = none) (key : Key) : s.reads key = e.reads key := by
  rw [reads, hl, List.map_map]
  apply List.map_congr_left
  intro l _
  exact Bank.read_cycle_of_no_write hw key

theorem Accounted.map_consume_probe (h : e.Accounted []) (key : Key) :
    (e.lanes.map (·.cycle { probe := some key })).map (·.cycle { consume := true }) = e.lanes := by
  rw [List.map_map]
  calc e.lanes.map _ = e.lanes.map id :=
        List.map_congr_left fun l hl => Lane.consume_probe (h.answers l hl).results_eq key
    _ = e.lanes := List.map_id _

def deleting (e : Engine) (key : Key) (lanes : List Lane) (phase : Phase) (choice : Choice)
    (r : Recorder) : Engine :=
  { e with
    lanes := lanes
    phase := phase
    staging := e.staging.take (some (.delete key)) false e.config.keyMask e.config.dataMask
    choice := choice
    rounds := 0
    recorder := r }

namespace Steady

variable (h : Steady e)

include h

theorem tick_of_delete (hrest : e.atRest = true) (hacc : e.accepted? lines = some (.delete key)) :
    ∃ o r, e.tick (.ofLines lines) = .ok o ∧
      o.result = .ok { accepted := some (.delete key) } ∧
      o.state = e.deleting key e.lanes .probing e.choice r := by
  obtain ⟨hp, -, hstaged⟩ := atRest_eq_true.1 hrest
  obtain ⟨keys, hk⟩ := h.accounted
  obtain rfl := hk.keys_nil_of_atRest hrest
  have hdel : e.delivers lines = false := by
    simp [delivers, response?, hk.results?_of_nil]
  have htaken : e.lookupTaken = false := by rw [lookupTaken, hstaged, Bool.and_false]
  have hx : e.exclusiveAccepted lines = true := by rw [exclusiveAccepted, hacc]; rfl
  have hin : e.nextInFlight lines = e.inFlight := by
    rw [nextInFlight, lookupAccepted, hacc, hdel]
    rfl
  have hlanes : e.lanes.map (·.cycle {}) = e.lanes := List.map_id _
  have hev : e.evicted? = none := evicted?_of_ne (by simp [hp])
  refine ⟨_, e.recorder.recordAll (e.measurements lines), h.tick_eq_ok hev lines, ?_, ?_⟩
  · simp [outputs, hacc, hdel]
  · rw [advance_of_idle hp, served, hacc, htaken, hdel, hx, hin]
    simp only [Bool.false_eq_true, if_false, if_true, hlanes]
    rfl

theorem tick_of_probing (hp : e.phase = .probing) (l : Lines) :
    ∃ o r, e.tick (.ofLines l) = .ok o ∧ o.result = .ok {} ∧
      o.state =
        { e with
          lanes := e.lanes.map (·.cycle { probe := some e.staging.key })
          phase := .waiting
          recorder := r } := by
  obtain ⟨keys, hk⟩ := h.accounted
  have hev : e.evicted? = none := evicted?_of_ne (by simp [hp])
  refine ⟨_, e.recorder.recordAll (e.measurements l), h.tick_eq_ok hev l, ?_, ?_⟩
  · exact congrArg _ (outputs_of_ne (by simp [hp]))
  · rw [advance_of_probing hp, hk.probeTaken_of_open h.isOpen hp]
    rfl

theorem tick_of_waiting (hp : e.phase = .waiting) (l : Lines) :
    ∃ o r, e.tick (.ofLines l) = .ok o ∧ o.result = .ok {} ∧
      o.state =
        { e with
          phase := .writing
          choice := e.choice.next (e.reads e.staging.key)
          recorder := r } := by
  obtain ⟨keys, hk⟩ := h.accounted
  have hev : e.evicted? = none := evicted?_of_ne (by simp [hp])
  refine ⟨_, e.recorder.recordAll (e.measurements l), h.tick_eq_ok hev l, ?_, ?_⟩
  · exact congrArg _ (outputs_of_ne (by simp [hp]))
  · rw [advance_of_waiting hp, hk.results?_of_open h.isOpen (.inl hp)]
    rfl

theorem tick_of_missing (hp : e.phase = .writing) (ho : e.staging.origin = .delete)
    (hmiss : e.Misses e.staging.key) (l : Lines) :
    ∃ o r, e.tick (.ofLines l) = .ok o ∧ o.result = .ok {} ∧
      o.state =
        { e with
          lanes := e.lanes.map (·.cycle { consume := true })
          phase := .idle
          recorder := r } := by
  obtain ⟨keys, hk⟩ := h.accounted
  have hev : e.evicted? = none := evicted?_of_delete ho
  have hfound : e.choice.found = false := by
    rcases hk.choice_cases hp with ⟨t, ht, hf, -⟩ | ⟨-, t, -, -, -, hc⟩ | ⟨-, -, t, -, hc⟩
    · rw [hmiss t ht] at hf
      cases hf
    · rw [hc]
    · rw [hc]
  have hn : e.writeNeeded = false := by rw [writeNeeded, hp, ho, hfound]
  have hdone : e.writeDone = true := hk.writeDone_of_open h.isOpen hp
  have hresults : e.results?.isSome = true := by
    rw [hk.results?_of_open h.isOpen (.inr hp)]
    rfl
  refine ⟨_, e.recorder.recordAll (e.measurements l), h.tick_eq_ok hev l, ?_, ?_⟩
  · exact congrArg _ (outputs_of_ne (by simp [hp]))
  · rw [advance_of_writing hp, nextLanes_of_not_needed hp hn hresults, hev, hdone, ho]
    rfl

theorem run_of_absent_delete (hrest : e.atRest = true)
    (hacc : e.accepted? lines = some (.delete key)) (hmiss : e.Misses (key &&& e.config.keyMask))
    (l₁ l₂ l₃ : Lines) :
    ∃ beats r, e.run ([lines, l₁, l₂, l₃].map .ofLines) = .ok (beats,
        e.deleting key e.lanes .idle (e.choice.next (e.reads (key &&& e.config.keyMask))) r) ∧
      beats.map (·.result) = [.ok { accepted := some (.delete key) }, .ok {}, .ok {}, .ok {}] ∧
      beats.map (·.start.phase) = [.idle, .probing, .waiting, .writing] := by
  obtain ⟨hp, -⟩ := atRest_eq_true.1 hrest
  obtain ⟨keys, hk⟩ := h.accounted
  obtain rfl := hk.keys_nil_of_atRest hrest
  let probed := e.lanes.map (·.cycle { probe := some (key &&& e.config.keyMask) })
  let choice := e.choice.next (e.reads (key &&& e.config.keyMask))
  obtain ⟨o₁, r₁, ht₁, hr₁, hs₁⟩ := h.tick_of_delete hrest hacc
  have h₁ := h.tick ht₁
  rw [hs₁] at h₁
  obtain ⟨o₂, r₂, ht₂, hr₂, hs₂⟩ := h₁.tick_of_probing rfl l₁
  change o₂.state = e.deleting key probed .waiting e.choice r₂ at hs₂
  have h₂ := h₁.tick ht₂
  rw [hs₂] at h₂
  obtain ⟨o₃, r₃, ht₃, hr₃, hs₃⟩ := h₂.tick_of_waiting rfl l₂
  rw [reads_of_lanes_map (e := e) rfl rfl] at hs₃
  change o₃.state = e.deleting key probed .writing choice r₃ at hs₃
  have h₃ := h₂.tick ht₃
  rw [hs₃] at h₃
  obtain ⟨o₄, r₄, ht₄, hr₄, hs₄⟩ := h₃.tick_of_missing rfl rfl
    (hmiss.of_sameSlots (sameSlots_of_lanes_map rfl rfl)) l₃
  change o₄.state = e.deleting key (probed.map (·.cycle { consume := true })) .idle choice r₄ at hs₄
  -- The result of the probe is all that the banks got, and it is gone again.
  rw [hk.map_consume_probe] at hs₄
  have hend : o₄.state.run [] = .ok ([], o₄.state) := rfl
  have hrun₄ := run_cons_of_ok ht₄ hend
  rw [← hs₃] at hrun₄
  have hrun₃ := run_cons_of_ok ht₃ hrun₄
  rw [← hs₂] at hrun₃
  have hrun₂ := run_cons_of_ok ht₂ hrun₃
  rw [← hs₁] at hrun₂
  have hrun := run_cons_of_ok ht₁ hrun₂
  rw [hs₄] at hrun
  refine ⟨_, r₄, hrun, ?_, ?_⟩
  · simp only [List.map_cons, List.map_nil, beat, hr₁, hr₂, hr₃, hr₄]
  · show [e.phase, o₁.state.phase, o₂.state.phase, o₃.state.phase] = _
    rw [hp, hs₁, hs₂, hs₃]
    rfl

end Steady

/-- After the delete of an absent key the engine is as before, but for what the next round sets anew. -/
theorem twin_deleting (hrest : s.atRest = true) (key : Key) (choice : Choice) (r : Recorder) :
    Twin s (s.deleting key s.lanes .idle choice r) := by
  obtain ⟨hp, -, hstaged⟩ := atRest_eq_true.1 hrest
  exact
    { config_eq := rfl
      lanes_eq := rfl
      phase_eq := hp.symm
      inFlight_eq := rfl
      sweep_eq := rfl
      lookup?_eq := by
        have hnone : s.staging.lookup? = none := by
          rw [Staging.lookup?, hstaged]
          rfl
        rw [hnone]
        rfl
      data_eq := rfl
      updating := fun hup => absurd hp hup.not_idle
      chosen := fun hw => absurd (hp.symm.trans hw) (by decide) }

theorem misses_of_not_mem (h : key ∉ e.storedKeys) : e.Misses key := by
  intro t _
  rw [Bool.eq_false_iff]
  exact fun hf => h (mem_storedKeys_of_found hf)

variable {c : Config} {hash : Nat → Key → Word} {depth : Nat → Nat}

theorem Reaches.steady (h : ofLanes c (emptyLanes c hash depth) = .ok e) (hr : e.Reaches s) :
    Steady s ∧ s.config = c := by
  obtain ⟨ls, beats, hrun⟩ := hr
  obtain ⟨keys, hf⟩ := follows_of_run h hrun
  obtain ⟨hvalid, -, -, rfl⟩ := ofLanes_eq_ok h
  have hstart : Steady (start c (emptyLanes c hash depth)) :=
    { accounted := ⟨[], accounted_empty hvalid.validate⟩
      sound := sound_empty
      isOpen := fun l hl => by
        obtain ⟨i, -, rfl⟩ := List.mem_map.1 hl
        rfl }
  exact ⟨hstart.run hrun, hf.config_eq⟩

/-- The delete of an absent key takes four cycles and changes no slot. From then on the engine accepts,
answers and stores what it would have without the delete, as long as no round evicts before one has found
its key or a free slot; without this proviso, if the delete leaves the next victim as it was. -/
theorem absent_delete_unnoticed (h : ofLanes c (emptyLanes c hash depth) = .ok e)
    (hr : e.Reaches s) (hrest : s.atRest = true) (hacc : s.accepted? lines = some (.delete key))
    (hkey : key &&& c.keyMask ∉ s.storedKeys) (l₁ l₂ l₃ : Lines) :
    ∃ beats s', s.run ([lines, l₁, l₂, l₃].map .ofLines) = .ok (beats, s') ∧
      beats.map (·.result) = [.ok { accepted := some (.delete key) }, .ok {}, .ok {}, .ok {}] ∧
      beats.map (·.start.phase) = [.idle, .probing, .waiting, .writing] ∧
      s'.atRest = true ∧ s'.entries = s.entries ∧
      s'.choice = s.choice.next (s.reads (key &&& c.keyMask)) ∧
      ∀ ls : List Lines, s'.RunsTo (ls.map .ofLines) fun beats' e' =>
        s'.choice.victim = s.choice.victim ∨ Undiverted beats' →
          ∃ beats e₁, s.run (ls.map .ofLines) = .ok (beats, e₁) ∧
            List.Forall₂ Alike beats beats' ∧ SameSlots e₁ e' := by
  obtain ⟨hs, rfl⟩ := hr.steady h
  obtain ⟨hp, hcount, hstaged⟩ := atRest_eq_true.1 hrest
  obtain ⟨beats, r, hrun, hresults, hphases⟩ :=
    hs.run_of_absent_delete hrest hacc (misses_of_not_mem hkey) l₁ l₂ l₃
  have hs' := hs.run hrun
  have hrest' : (s.deleting key s.lanes .idle
      (s.choice.next (s.reads (key &&& s.config.keyMask))) r).atRest = true :=
    atRest_eq_true.2 ⟨rfl, hcount, rfl⟩
  obtain ⟨keys, hk⟩ := hs'.accounted
  obtain rfl := hk.keys_nil_of_atRest hrest'
  refine ⟨beats, _, hrun, hresults, hphases, hrest', rfl, rfl, fun ls => ?_⟩
  apply (hk.runsTo rfl (visible_ofLines ls)).mono
  intro beats' e' hrun' _ hl
  have hpair : Pair s _ := ⟨twin_deleting hrest .., hs, hs'⟩
  refine hpair.run hrun' (hl.imp_left fun hvictim => ⟨hvictim, fun hw => ?_⟩)
  exact absurd (hp.symm.trans hw) (by decide)

/-- Two slots in each bank, found by the lowest bit of a key and by the bit above it. -/
def slantedEngine : Engine :=
  smallEngine fun i key => key >>> .ofNat i

/-- The delete of 11 turns the victim, but the insert of 2 finds a free slot before that of 7 evicts. -/
theorem absent_delete_unnoticed_filled :
    ∃ s beats s' beats₁ e₁ beats' e', slantedEngine.Reaches s ∧
      s.run ([{ delete := some 11 }, {}, {}, {}].map .ofLines) = .ok (beats, s') ∧
      s'.choice.victim ≠ s.choice.victim ∧
      s.run ([{ insert := some (2, 20) }, {}, {}, {}, { insert := some (7, 70) }, {}, {}, {}, {}, {},
        {}].map .ofLines) = .ok (beats₁, e₁) ∧
      s'.run ([{ insert := some (2, 20) }, {}, {}, {}, { insert := some (7, 70) }, {}, {}, {}, {}, {},
        {}].map .ofLines) = .ok (beats', e') ∧
      e'.rounds = 2 ∧ List.Forall₂ Alike beats₁ beats' ∧ SameSlots e₁ e' := by
  obtain ⟨⟨before, s⟩, hreach, hrest, hacc, hkey, hnext⟩ := exists_of_toOption_any
    (x := slantedEngine.run ([{ insert := some (1, 10) }, {}, {}, {}, { insert := some (3, 30) },
      {}, {}, {}].map .ofLines))
    (p := fun r => r.2.atRest = true ∧
      r.2.accepted? { delete := some 11 } = some (.delete 11) ∧
      11 &&& smallConfig.keyMask ∉ r.2.storedKeys ∧
      (r.2.run ([{ delete := some 11 }, {}, {}, {}].map .ofLines)).toOption.any fun r' =>
        r'.2.choice.victim ≠ r.2.choice.victim ∧
        (r'.2.run ([{ insert := some (2, 20) }, {}, {}, {}, { insert := some (7, 70) }, {}, {}, {},
          {}, {}, {}].map .ofLines)).toOption.any fun r'' =>
            Undiverted r''.1 ∧ r''.2.rounds = 2)
    (by decide +kernel)
  obtain ⟨⟨beats, s'⟩, hrun, hvictim, hnext'⟩ := exists_of_toOption_any hnext
  obtain ⟨⟨beats', e'⟩, hrun', hundiverted, hrounds⟩ := exists_of_toOption_any hnext'
  have hr : slantedEngine.Reaches s := ⟨_, before, hreach⟩
  obtain ⟨_, _, hrun₂, -, -, -, -, -, hruns⟩ :=
    absent_delete_unnoticed (ofLanes_smallEngine _) hr hrest hacc hkey {} {} {}
  obtain ⟨rfl, rfl⟩ := Prod.mk.inj (Except.ok.inj (hrun₂.symm.trans hrun))
  obtain ⟨beats₁, e₁, hrun₁, halike, hsame⟩ := (hruns _).ok hrun' (.inr hundiverted)
  exact ⟨s, _, _, beats₁, e₁, beats', e', hr, hrun, hvictim, hrun₁, hrun', hrounds, halike, hsame⟩

/-- The insert of 7 has to evict: without the delete of 11 it puts 1 out, with it 3. -/
theorem absent_delete_turns_victim :
    ∃ s beats s' beats₁ e₁ beats' e', slantedEngine.Reaches s ∧ s.atRest = true ∧
      11 &&& smallConfig.keyMask ∉ s.storedKeys ∧
      s.run ([{ delete := some 11 }, {}, {}, {}].map .ofLines) = .ok (beats, s') ∧
      Beat.accepted beats = [.delete 11] ∧ s'.atRest = true ∧ s'.entries = s.entries ∧
      s.run ([{ insert := some (7, 70) }, {}, {}, {}].map .ofLines) = .ok (beats₁, e₁) ∧
      s'.run ([{ insert := some (7, 70) }, {}, {}, {}].map .ofLines) = .ok (beats', e') ∧
      e₁.entries = [⟨0, 1, 7, 70⟩, ⟨1, 1, 3, 30⟩] ∧
      e'.entries = [⟨0, 1, 1, 10⟩, ⟨1, 1, 7, 70⟩] := by
  let stored : List Entry := [⟨0, 1, 1, 10⟩, ⟨1, 1, 3, 30⟩]
  obtain ⟨⟨before, s⟩, hreach, hrest, hkey, hentries, hnext, hnext₁⟩ := exists_of_toOption_any
    (x := slantedEngine.run ([{ insert := some (1, 10) }, {}, {}, {}, { insert := some (3, 30) },
      {}, {}, {}].map .ofLines))
    (p := fun r => r.2.atRest = true ∧ 11 &&& smallConfig.keyMask ∉ r.2.storedKeys ∧
      r.2.entries = stored ∧
      ((r.2.run ([{ delete := some 11 }, {}, {}, {}].map .ofLines)).toOption.any fun r' =>
        Beat.accepted r'.1 = [.delete 11] ∧ r'.2.atRest = true ∧ r'.2.entries = stored ∧
        (r'.2.run ([{ insert := some (7, 70) }, {}, {}, {}].map .ofLines)).toOption.any fun r'' =>
          r''.2.entries = [⟨0, 1, 1, 10⟩, ⟨1, 1, 7, 70⟩]) ∧
      (r.2.run ([{ insert := some (7, 70) }, {}, {}, {}].map .ofLines)).toOption.any fun r' =>
        r'.2.entries = [⟨0, 1, 7, 70⟩, ⟨1, 1, 3, 30⟩])
    (by decide +kernel)
  obtain ⟨⟨beats, s'⟩, hrun, hacc, hrest', hentries', hnext'⟩ := exists_of_toOption_any hnext
  obtain ⟨⟨beats', e'⟩, hrun', hput'⟩ := exists_of_toOption_any hnext'
  obtain ⟨⟨beats₁, e₁⟩, hrun₁, hput₁⟩ := exists_of_toOption_any hnext₁
  exact ⟨s, beats, s', beats₁, e₁, beats', e', ⟨_, before, hreach⟩, hrest, hkey, hrun, hacc, hrest',
    hentries'.trans hentries.symm, hrun₁, hrun', hput₁, hput'⟩

end Engine
end ClockedCuckoo
