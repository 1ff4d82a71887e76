import Mathlib.Data.List.Forall2
import ClockedCuckoo.Proofs.Lookups

/-! Every accepted lookup comes to one outcome, in order, whatever the slots hold: it is answered, or
refused when several banks hold its key. Nothing is written between its acceptance and its outcome, so
the outcome is told by the slots as the lookup met them. -/

namespace ClockedCuckoo

inductive Verdict
  | answered (response : Response)
  | refused (duplicate : Duplicate)
  deriving DecidableEq, Repr

namespace Engine

def holders (e : Engine) (key : Key) : List Nat :=
  (List.range e.config.banks).filter fun t => (e.slotAt t (e.home t key)).holds key

def verdict (e : Engine) (key : Key) : Verdict :=
  match e.holders key with
  | [] => .answered ⟨key, none, e.home 0 key⟩
  | [t] => .answered ⟨key, some ⟨t, (e.slotAt t (e.home t key)).data⟩, e.home t key⟩
  | ts => .refused ⟨key, ts⟩

end Engine

namespace Beat

def asked? (b : Beat) : Option (Engine × Key) :=
  b.accepted?.bind fun r => (r.lookup? b.start.config.keyMask).map (b.start, ·)

/-- The outcome of a lookup that the cycle brings, and the engine that it came from. A cycle that
fails in an update round brings none. -/
def told? (b : Beat) : Option (Engine × Verdict) :=
  match b.result with
  | .ok out => out.response.map fun r => (b.start, .answered r)
  | .error d => if b.start.phase = .idle then some (b.start, .refused d) else none

def asked (beats : List Beat) : List (Engine × Key) :=
  beats.filterMap asked?

def told (beats : List Beat) : List (Engine × Verdict) :=
  beats.filterMap told?

theorem start_of_asked? {b : Beat} {a : Engine × Key} (h : b.asked? = some a) : a.1 = b.start := by
  obtain ⟨r, -, hr⟩ := Option.bind_eq_some_iff.1 h
  obtain ⟨key, -, rfl⟩ := Option.map_eq_some_iff.1 hr
  rfl

theorem asked_eq_nil {beats : List Beat} (h : accepted beats = []) : asked beats = [] := by
  rw [asked, List.filterMap_eq_nil_iff]
  intro b hb
  rw [asked?, List.filterMap_eq_nil_iff.1 h b hb]
  rfl

theorem asked_append (as bs : List Beat) : asked (as ++ bs) = asked as ++ asked bs :=
  List.filterMap_append

theorem told_append (as bs : List Beat) : told (as ++ bs) = told as ++ told bs :=
  List.filterMap_append

theorem asked_snoc (beats : List Beat) (b : Beat) :
    asked (beats ++ [b]) = asked beats ++ b.asked?.toList := by
  rw [asked_append, asked, asked, List.filterMap_cons]
  cases b.asked? <;> rfl

theorem told_snoc (beats : List Beat) (b : Beat) :
    told (beats ++ [b]) = told beats ++ b.told?.toList := by
  rw [told_append, told, told, List.filterMap_cons]
  cases b.told? <;> rfl

end Beat

namespace Engine

variable {c : Config} {lanes : List Lane} {e e' : Engine} {keys keys' : List Key} {lines : Lines}
  {key : Key}

theorem SameSlots.verdict_eq (h : SameSlots e e') (hc : e'.config = e.config) (key : Key) :
    e'.verdict key = e.verdict key := by
  simp only [verdict, holders, h.slotAt_eq, h.home_eq, hc]

section Probes

theorem Built.toList_foundIn (h : e.Built keys) (key : Key) :
    (Probe.foundIn (e.reads key) e.config.banks).toList = e.holders key := by
  apply List.filter_congr
  intro t ht
  rw [Bool.eq_iff_iff, Probe.contains_foundIn (h.length_reads key) h.banks_le]
  have hlt : t < e.lanes.length := h.lanes_length ▸ List.mem_range.1 ht
  rw [getElem?_reads hlt]
  constructor
  · rintro ⟨p, hp, hf⟩
    cases hp
    exact hf
  · exact fun hf => ⟨_, rfl, hf⟩

theorem Built.fits_foundIn (h : e.Built keys) (key : Key) :
    (Probe.foundIn (e.reads key) e.config.banks).Fits :=
  LaneSet.fits_ofFlags _ h.banks_le

theorem Built.head?_reads (h : e.Built keys) (key : Key) :
    (e.reads key).head? = some (e.readAt 0 key) := by
  rw [List.head?_eq_getElem?]
  exact getElem?_reads (List.length_pos_iff.2 h.lanes_ne_nil) key

theorem Built.duplicate?_reads (h : e.Built keys) (key : Key) :
    Probe.duplicate? (e.reads key) e.config.banks =
      if 1 < (e.holders key).length then some ⟨key, e.holders key⟩ else none := by
  obtain ⟨ps, hps⟩ := List.head?_eq_some_iff.1 (h.head?_reads key)
  rw [← h.toList_foundIn, ← (h.fits_foundIn key).count_eq, hps]
  rfl

theorem Built.verdict_of_duplicate? (h : e.Built keys) {d : Duplicate}
    (hd : Probe.duplicate? (e.reads key) e.config.banks = some d) :
    e.verdict key = .refused d := by
  rw [h.duplicate?_reads] at hd
  split at hd
  · rename_i hlt
    cases hd
    rw [verdict]
    split
    · rename_i hh
      simp [hh] at hlt
    · rename_i hh
      simp [hh] at hlt
    · rfl
  · cases hd

theorem Built.verdict_of_response (h : e.Built keys) {r : Response}
    (hd : Probe.duplicate? (e.reads key) e.config.banks = none)
    (hr : Response.ofProbes (e.reads key) e.config.banks = some r) :
    e.verdict key = .answered r := by
  have honly : ∀ t, (Probe.foundIn (e.reads key) e.config.banks).only? = some t ↔
      e.holders key = [t] := by
    intro t
    rw [(h.fits_foundIn key).only?_eq_some_iff, h.toList_foundIn]
  rw [Response.ofProbes] at hr
  cases ho : (Probe.foundIn (e.reads key) e.config.banks).only? with
  | some t =>
    have hh := (honly t).1 ho
    have hlt : t < e.lanes.length := by
      rw [h.lanes_length, ← List.mem_range]
      exact List.mem_of_mem_filter (hh ▸ List.mem_singleton_self t)
    simp only [ho, getElem?_reads hlt, Option.map_some, Option.some.injEq] at hr
    rw [verdict, hh, ← hr]
    rfl
  | none =>
    simp only [ho, h.head?_reads, Option.map_some, Option.some.injEq] at hr
    -- With no bank named alone and none refused, no bank holds the key.
    have hnil : e.holders key = [] := by
      rw [h.duplicate?_reads] at hd
      cases hh : e.holders key with
      | nil => rfl
      | cons t ts =>
        cases ts with
        | nil =>
          rw [(honly t).2 hh] at ho
          cases ho
        | cons u us => simp [hh] at hd
    rw [verdict, hnil, ← hr]
    rfl

end Probes

theorem Move.sameSlots_of_idle {result : Except Duplicate Outputs} (hm : Move e lines e' result)
    (hp : e.phase = .idle) : SameSlots e e' := by
  cases hm with
  | serve r _ _ => exact sameSlots_served e lines r
  | refuse r d _ _ => exact sameSlots_of_lanes_map rfl rfl
  | _ => simp_all

theorem told_of_delivers (lines : Lines) (h : e.Built keys) (hf : e.fault? = none) :
    (e.outputs lines).response.toList.map Verdict.answered =
      (if e.delivers lines then keys.take 1 else []).map e.verdict := by
  cases hd : e.delivers lines with
  | false =>
    rw [outputs, hd]
    rfl
  | true =>
    obtain ⟨key, rest, r, rfl, hr, hof, hout⟩ := h.response_of_delivers hd
    have hu : e.usesResults = true := by simp [usesResults, idle_of_delivers hd]
    rw [fault?, if_pos hu, hr] at hf
    rw [hout]
    exact congrArg (· :: []) (h.verdict_of_response hf hof).symm

theorem Move.quiet_of_busy {b : Beat} (hm : Move b.start b.lines e' b.result)
    (hp : b.start.phase ≠ .idle) : b.asked? = none ∧ b.told? = none := by
  obtain ⟨e, lines, result, events⟩ := b
  dsimp only at hm hp
  cases hm with
  | serve r hi _ | refuse r d hi _ => exact absurd hi hp
  | abort r d hw _ => exact ⟨rfl, if_neg hp⟩
  | _ => exact ⟨rfl, rfl⟩

theorem Move.awaited_told {b : Beat} (hm : Move b.start b.lines e' b.result)
    (ha : b.start.Accounted keys) (ha' : e'.Accounted keys')
    (hkeys : b.start.phase = .idle →
      keys' = if b.start.fault?.isSome then keys.tail else b.start.nextKeys keys b.lines) :
    ∃ told : List Key, b.told?.toList = told.map (fun key => (b.start, b.start.verdict key)) ∧
      b.start.awaited keys ++ (b.asked?.map Prod.snd).toList = told ++ e'.awaited keys' := by
  by_cases hp : b.start.phase = .idle
  · obtain ⟨e, lines, result, events⟩ := b
    dsimp only at hm ha hp hkeys
    cases hm with
    | serve r _ hf =>
      have hmove : Move e lines (e.served lines r) (.ok (e.outputs lines)) := .serve r hp hf
      rw [hf] at hkeys
      refine ⟨if e.delivers lines then keys.take 1 else [], ?_, ?_⟩
      · have htold := congrArg (List.map (e, ·)) (told_of_delivers lines ha.toBuilt hf)
        rw [List.map_map, List.map_map] at htold
        refine Eq.trans ?_ htold
        simp only [Beat.told?]
        cases (e.outputs lines).response <;> rfl
      · rw [← hmove.awaited_append ha hf ha' hkeys]
        simp only [Beat.asked?, Beat.accepted?, outputs]
        cases e.accepted? lines with
        | none => rfl
        | some r => cases r <;> rfl
    | refuse r d _ hf =>
      obtain ⟨key, rest, rfl, hd⟩ := ha.results?_of_fault hf
      have hkeys' : keys' = rest := by simpa [hf] using hkeys hp
      refine ⟨[key], ?_, ?_⟩
      · rw [List.map_singleton, ha.verdict_of_duplicate? hd]
        simp [Beat.told?, hp]
      · simp [Beat.asked?, Beat.accepted?, awaited, hp, hkeys']
    | _ => simp_all
  · obtain ⟨hasked, htold⟩ := hm.quiet_of_busy hp
    have hcount : e'.inFlight.count = 0 := by
      rw [hm.inFlight_eq hp]
      exact (ha.busy hp).1
    rw [hasked, htold, awaited_of_ne hp, ha'.awaited_of_count hcount]
    exact ⟨[], rfl, rfl⟩

/-- The outcome is what the slots told as the lookup was accepted, and they are the same still. -/
def Settled (asked : Engine × Key) (told : Engine × Verdict) : Prop :=
  SameSlots asked.1 told.1 ∧ told.2 = asked.1.verdict asked.2

structure Settles (beats : List Beat) (e : Engine) (keys : List Key) : Prop where
  accounted : e.Accounted keys
  split : ∃ settled pending, Beat.asked beats = settled ++ pending ∧
    List.Forall₂ Settled settled (Beat.told beats) ∧ pending.map Prod.snd = e.awaited keys ∧
    ∀ a ∈ pending, SameSlots a.1 e ∧ e.config = a.1.config

theorem Accounted.length_awaited (h : e.Accounted keys) :
    (e.awaited keys).length = e.inFlight.count := by
  by_cases hp : e.phase = .idle
  · rw [awaited, if_pos hp, List.length_append, Staging.length_lookup?]
    exact h.idle hp
  · rw [awaited_of_ne hp, (h.busy hp).1]
    rfl

theorem Settles.beat {beats : List Beat} (h : Settles beats e keys) (d : Drive)
    {o : Outcome Engine Duplicate Outputs}
    (hm : Move (e.behind d.gates) d.lines o.state o.result) :
    ∃ keys', Settles (beats ++ [e.beat d o]) o.state keys' := by
  have ha := h.accounted.behind d.gates
  obtain ⟨keys', ha', hkeys⟩ := hm.accounted ha
  obtain ⟨settled, pending, hasked, htold, hpending, hsame⟩ := h.split
  obtain ⟨told, htold', hawaited⟩ := Move.awaited_told (b := e.beat d o) hm ha ha' hkeys
  -- Those asked for before and now, the oldest first: some are told now, the others wait on.
  have hmap : (pending ++ (e.beat d o).asked?.toList).map Prod.snd =
      told ++ o.state.awaited keys' := by
    rw [← hawaited, List.map_append, hpending]
    cases (e.beat d o).asked? <;> rfl
  obtain ⟨now, later, hsplit, rfl, hlater⟩ := List.map_eq_append_iff.1 hmap
  have hbefore : ∀ a ∈ now ++ later,
      SameSlots a.1 (e.behind d.gates) ∧ e.config = a.1.config := by
    intro a hmem
    rcases List.mem_append.1 (hsplit ▸ hmem) with hmem | hmem
    · exact ⟨(hsame a hmem).1.trans (sameSlots_behind d.gates), (hsame a hmem).2⟩
    · rw [Beat.start_of_asked? (Option.mem_toList.1 hmem)]
      exact ⟨.refl _, rfl⟩
  refine ⟨keys', ha', settled ++ now, later, ?_, ?_, hlater, fun a hmem => ?_⟩
  · rw [Beat.asked_snoc, hasked, List.append_assoc, List.append_assoc, hsplit]
  · rw [Beat.told_snoc, htold']
    refine List.rel_append htold ?_
    rw [List.map_map, List.forall₂_map_right_iff, List.forall₂_same]
    intro a hmem
    obtain ⟨hslots, hc⟩ := hbefore a (List.mem_append_left _ hmem)
    exact ⟨hslots, hslots.verdict_eq hc a.2⟩
  · obtain ⟨hslots, hc⟩ := hbefore a (List.mem_append_right _ hmem)
    have hp : (e.behind d.gates).phase = .idle := by
      by_contra hp
      have hcount := ha'.length_awaited
      rw [hm.inFlight_eq hp, (ha.busy hp).1, ← hlater, List.length_map] at hcount
      rw [List.length_eq_zero_iff.1 hcount] at hmem
      cases hmem
    exact ⟨hslots.trans (hm.sameSlots_of_idle hp), hm.config_eq.trans hc⟩

theorem settles_start (h : e.Accounted []) (hcount : e.inFlight.count = 0) : Settles [] e [] where
  accounted := h
  split := ⟨[], [], rfl, .nil, (h.awaited_of_count hcount).symm, by simp⟩

/-- Whatever the slots hold, each lookup accepted comes to one outcome, the oldest first; it is what
the slots tell as the lookup is accepted, and they stay so until then. The other lookups are those in
flight. -/
theorem lookups_settled_in_order (h : ofLanes c lanes = .ok e)
    (hready : ∀ l ∈ lanes, l.bank.hasher.IsTotal ∧ 0 < l.bank.depth ∧ l.bank.results = [])
    (ls : List Lines) :
    e.RunsTo (ls.map .ofLines) fun beats e' =>
      List.Forall₂ Settled ((Beat.asked beats).take (Beat.told beats).length)
        (Beat.told beats) ∧
      (Beat.asked beats).length = (Beat.told beats).length + e'.inFlight.count := by
  have hstart := accounted_start h hready
  obtain ⟨-, -, -, rfl⟩ := ofLanes_eq_ok h
  have hruns : (start c lanes).RunsTo (ls.map .ofLines) fun beats e' =>
      ∃ keys, Settles beats e' keys := by
    apply (hstart.sighted rfl (visible_ofLines ls)).runsTo rfl
    · exact ⟨[], settles_start hstart rfl⟩
    · rintro beats e' ⟨keys, hs⟩
      exact ⟨keys, hs.accounted⟩
    · rintro beats e' d o ⟨keys, hs⟩ hm
      exact hs.beat d hm
  apply hruns.mono
  rintro beats e' - ⟨keys, hk, settled, pending, hasked, htold, hpending, -⟩
  rw [hasked, ← htold.length_eq, List.take_left, List.length_append, ← hk.length_awaited,
    ← hpending, List.length_map]
  exact ⟨htold, rfl⟩

/-- The first lookup finds its key in both banks and is refused, with another one staged behind it. -/
theorem lookups_settled_in_order_clash :
    ∃ beats e', (start smallConfig clashingLanes).run
        ([{ lookup := some 5 }, { lookup := some 4 }, {}, { lookup := some 5 }, {}].map
          .ofLines) = .ok (beats, e') ∧
      (Beat.told beats).map Prod.snd = [.refused ⟨5, [0, 1]⟩, .answered ⟨4, none, 0⟩] ∧
      List.Forall₂ Settled ((Beat.asked beats).take (Beat.told beats).length)
        (Beat.told beats) ∧
      (Beat.asked beats).length = (Beat.told beats).length + e'.inFlight.count := by
  have hruns := lookups_settled_in_order ofLanes_clashingLanes ready_clashingLanes
    [{ lookup := some 5 }, { lookup := some 4 }, {}, { lookup := some 5 }, {}]
  exact ⟨_, _, rfl, rfl, hruns.ok rfl⟩

end Engine
end ClockedCuckoo
