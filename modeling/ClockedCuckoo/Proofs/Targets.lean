import ClockedCuckoo.Proofs.LaneFlags
import ClockedCuckoo.Proofs.Selection

/-! The target of a choice is the bank that found the key, else the lowest bank with a free slot, else
the bank to the right of the last target. Choices that find every slot taken go round the banks. -/

namespace ClockedCuckoo

namespace Probe

def hits (probes : List Probe) : List Nat :=
  LaneSet.flagged (probes.map found) probes.length

def Taken (probes : List Probe) : Prop :=
  ∀ p ∈ probes, p.found = false ∧ p.occupied = true

variable {probes : List Probe} {p : Probe} {i : Nat}

theorem toList_foundIn (hw : probes.length ≤ LaneSet.maxWidth) :
    (foundIn probes probes.length).toList = hits probes :=
  LaneSet.toList_ofFlags _ hw

theorem duplicate?_cons (p : Probe) (ps : List Probe) (hw : (p :: ps).length ≤ LaneSet.maxWidth) :
    duplicate? (p :: ps) (p :: ps).length =
      if 2 ≤ (hits (p :: ps)).length then some ⟨p.key, hits (p :: ps)⟩ else none := by
  have hfits : (foundIn (p :: ps) (p :: ps).length).Fits := LaneSet.fits_ofFlags _ hw
  simp only [duplicate?, hfits.count_eq, toList_foundIn hw]
  rfl

theorem findIdx?_eq_some {f : Probe → Bool} (hi : probes[i]? = some p) (hf : f p = true)
    (hfirst : ∀ j < i, ∀ q, probes[j]? = some q → f q = false) : probes.findIdx? f = some i := by
  obtain ⟨hlt, rfl⟩ := List.getElem?_eq_some_iff.1 hi
  rw [List.findIdx?_eq_some_iff_getElem]
  refine ⟨hlt, hf, fun j hj => ?_⟩
  rw [hfirst j hj _ (List.getElem?_eq_getElem (Nat.lt_trans hj hlt))]
  exact Bool.false_ne_true

theorem SingleHit.findIdx?_found (h : SingleHit probes) (hi : probes[i]? = some p)
    (hf : p.found = true) : probes.findIdx? found = some i := by
  refine findIdx?_eq_some hi hf fun j hj q hq => ?_
  rw [Bool.eq_false_iff]
  exact fun hfq => absurd (h j i q p hq hi hfq hf) (Nat.ne_of_lt hj)

theorem Taken.singleHit (h : Taken probes) : SingleHit probes := by
  intro i j p q hp _ hf _
  rw [(h p (List.mem_of_getElem? hp)).1] at hf
  cases hf

end Probe

namespace Choice

/-- The place of the victim: one to the right of the last target, the last place if there was none. -/
def victimPlace (last : Choice) (width : Nat) : Nat :=
  match last.target.toList with
  | [] => width - 1
  | t :: _ => (t + width - 1) % width

/-- The place to write to: where the key was found, else the lowest free slot, else the victim's. -/
def place (last : Choice) (probes : List Probe) : Nat :=
  match probes.findIdx? Probe.found, probes.findIdx? Probe.isFree with
  | some hit, _ => hit
  | none, some free => free
  | none, none => last.victimPlace probes.length

inductive Reached (width : Nat) : Choice → Prop
  | initial : Reached width (.initial width)
  | keep {last c : Choice} {probes : List Probe} : Reached width last → probes.length = width →
      last.choose probes = .ok c → Reached width c

def chooseAll (last : Choice) : List (List Probe) → Except Duplicate (List Choice)
  | [] => .ok []
  | probes :: rounds =>
    match last.choose probes with
    | .error d => .error d
    | .ok c =>
      match c.chooseAll rounds with
      | .error d => .error d
      | .ok cs => .ok (c :: cs)

variable {last c : Choice} {probes : List Probe} {width t : Nat}

theorem choose_eq_ok : last.choose probes = .ok c ↔
    Probe.duplicate? probes last.target.width = none ∧ last.next probes = c := by
  unfold choose
  cases Probe.duplicate? probes last.target.width <;> simp

theorem Names.singleHit (h : last.Names width) (hl : probes.length = width)
    (hw : width ≤ LaneSet.maxWidth) (hc : last.choose probes = .ok c) : Probe.SingleHit probes := by
  obtain ⟨hnone, -⟩ := choose_eq_ok.1 hc
  rw [h.width_eq] at hnone
  exact (Probe.duplicate?_eq_none_iff hl hw).1 hnone

theorem Reached.names (h : Reached width c) (hpos : 0 < width) (hw : width ≤ LaneSet.maxWidth) :
    c.Names width := by
  induction h with
  | initial => exact names_initial width
  | keep _ hl hc ih =>
    obtain ⟨-, rfl⟩ := choose_eq_ok.1 hc
    exact .inr (ih.next (ih.singleHit hl hw hc) hl hpos hw)

theorem victimPlace_of_target (ht : t < width) (hw : width ≤ LaneSet.maxWidth)
    (h : last.target = .singleton t width) : last.victimPlace width = (t + width - 1) % width := by
  rw [victimPlace, h, LaneSet.toList_singleton ht hw]

theorem Names.victim_eq (h : last.Names width) (hpos : 0 < width) (hw : width ≤ LaneSet.maxWidth) :
    last.victimPlace width < width ∧ last.victim = .singleton (last.victimPlace width) width := by
  rcases h with h | ⟨t, ht, h⟩
  · have hplace : last.victimPlace width = width - 1 := by
      rw [victimPlace, h, LaneSet.toList_empty]
    rw [hplace, Choice.victim, h]
    exact ⟨Nat.sub_one_lt_of_lt hpos, rfl⟩
  · rw [victimPlace_of_target ht hw h, victim_of_target ht hw h]
    exact ⟨Nat.mod_lt _ hpos, rfl⟩

theorem Names.length_toList_le (h : last.Names width) (hw : width ≤ LaneSet.maxWidth) :
    last.target.toList.length ≤ 1 := by
  rcases h with h | ⟨t, ht, h⟩
  · rw [h, LaneSet.toList_empty]
    exact Nat.zero_le _
  · rw [h, LaneSet.toList_singleton ht hw]
    exact Nat.le_refl 1

theorem place_of_hit (hs : Probe.SingleHit probes) {p : Probe} (hp : probes[t]? = some p)
    (hf : p.found = true) : last.place probes = t := by
  rw [place, hs.findIdx?_found hp hf]

theorem findIdx?_found_of_miss (h : ∀ p ∈ probes, p.found = false) :
    probes.findIdx? Probe.found = none :=
  List.findIdx?_eq_none_iff.2 h

theorem place_of_free (hmiss : ∀ p ∈ probes, p.found = false) {p : Probe}
    (hp : probes[t]? = some p) (hfree : p.occupied = false)
    (hfirst : ∀ j < t, ∀ q, probes[j]? = some q → q.occupied = true) : last.place probes = t := by
  have hidx : probes.findIdx? Probe.isFree = some t := by
    refine Probe.findIdx?_eq_some hp ?_ fun j hj q hq => ?_
    · rw [Probe.isFree, hfree, Bool.not_false]
    · rw [Probe.isFree, hfirst j hj q hq, Bool.not_true]
  rw [place, findIdx?_found_of_miss hmiss, hidx]

theorem place_of_taken (h : Probe.Taken probes) :
    last.place probes = last.victimPlace probes.length := by
  have hnone : probes.findIdx? Probe.isFree = none := by
    refine List.findIdx?_eq_none_iff.2 fun p hp => ?_
    rw [Probe.isFree, (h p hp).2, Bool.not_true]
  rw [place, findIdx?_found_of_miss fun p hp => (h p hp).1, hnone]

theorem Names.next_eq (h : last.Names width) (hs : Probe.SingleHit probes)
    (hl : probes.length = width) (hpos : 0 < width) (hw : width ≤ LaneSet.maxWidth) :
    last.place probes < width ∧ last.next probes =
      ⟨.singleton (last.place probes) width, probes.any Probe.found,
        probes.any fun p => p.found || p.isFree⟩ := by
  have hlt : ∀ {i : Nat} {p : Probe}, probes[i]? = some p → i < width := by
    intro i p hi
    exact hl ▸ (List.getElem?_eq_some_iff.1 hi).1
  rcases next_cases h.width_eq hs hl hw with
    ⟨i, p, hi, hf, hnext⟩ | ⟨hmiss, i, p, hi, hfree, hfirst, hnext⟩ | ⟨hmiss, hfull, hnext⟩
  · have hp := List.mem_of_getElem? hi
    have hfound : probes.any Probe.found = true := List.any_eq_true.2 ⟨p, hp, hf⟩
    have hfinal : (probes.any fun p => p.found || p.isFree) = true :=
      List.any_eq_true.2 ⟨p, hp, by rw [hf, Bool.true_or]⟩
    rw [place_of_hit hs hi hf, hfound, hfinal]
    exact ⟨hlt hi, hnext⟩
  · have hfound : probes.any Probe.found = false :=
      List.any_eq_false.2 fun q hq => Bool.eq_false_iff.1 (hmiss q hq)
    have hfinal : (probes.any fun p => p.found || p.isFree) = true :=
      List.any_eq_true.2 ⟨p, List.mem_of_getElem? hi, by
        rw [Probe.isFree, hfree, Bool.not_false, Bool.or_true]⟩
    rw [place_of_free hmiss hi hfree hfirst, hfound, hfinal]
    exact ⟨hlt hi, hnext⟩
  · have hfound : probes.any Probe.found = false :=
      List.any_eq_false.2 fun q hq => Bool.eq_false_iff.1 (hmiss q hq)
    have hfinal : (probes.any fun p => p.found || p.isFree) = false := by
      refine List.any_eq_false.2 fun q hq => ?_
      rw [hmiss q hq, Probe.isFree, hfull q hq]
      exact Bool.false_ne_true
    obtain ⟨hvlt, hvictim⟩ := h.victim_eq hpos hw
    rw [place_of_taken fun q hq => ⟨hmiss q hq, hfull q hq⟩, hl, hfound, hfinal, ← hvictim]
    exact ⟨hvlt, hnext⟩

theorem Names.choose_cons (h : last.Names width) {p : Probe} {ps : List Probe}
    (hl : (p :: ps).length = width) (hpos : 0 < width) (hw : width ≤ LaneSet.maxWidth) :
    last.choose (p :: ps) =
      if 2 ≤ (Probe.hits (p :: ps)).length then .error ⟨p.key, Probe.hits (p :: ps)⟩
      else .ok ⟨.singleton (last.place (p :: ps)) width, (p :: ps).any Probe.found,
        (p :: ps).any fun q => q.found || q.isFree⟩ := by
  have hdup := Probe.duplicate?_cons p ps (hl ▸ hw)
  rw [hl] at hdup
  rw [choose, h.width_eq]
  split at hdup
  · rename_i htwo
    rw [hdup, if_pos htwo]
  · rename_i hone
    have hs := (Probe.duplicate?_eq_none_iff hl hw).1 hdup
    rw [hdup, if_neg hone, ← (h.next_eq hs hl hpos hw).2]

theorem Names.target_eq (h : last.Names width) (hl : probes.length = width) (hpos : 0 < width)
    (hw : width ≤ LaneSet.maxWidth) (hc : last.choose probes = .ok c) :
    last.place probes < width ∧ c.target = .singleton (last.place probes) width := by
  obtain ⟨hlt, hnext⟩ := h.next_eq (h.singleHit hl hw hc) hl hpos hw
  obtain ⟨-, rfl⟩ := choose_eq_ok.1 hc
  rw [hnext]
  exact ⟨hlt, rfl⟩

theorem Names.choose_taken (h : last.Names width) (htaken : Probe.Taken probes)
    (hl : probes.length = width) (hw : width ≤ LaneSet.maxWidth) :
    ∃ c, last.choose probes = .ok c := by
  refine ⟨last.next probes, choose_eq_ok.2 ⟨?_, rfl⟩⟩
  rw [h.width_eq]
  exact (Probe.duplicate?_eq_none_iff hl hw).2 htaken.singleHit

def turned (first width n : Nat) : LaneSet :=
  .singleton (((first : Int) - n) % width).toNat width

theorem turned_ne {first i j : Nat} (hw : width ≤ LaneSet.maxWidth) (hij : i < j)
    (hj : j < i + width) : turned first width i ≠ turned first width j := by
  have hpos : (0 : Int) < width := by omega
  have hle : ∀ n : Nat, 0 ≤ ((first : Int) - n) % width ∧ ((first : Int) - n) % width < width :=
    fun n => ⟨Int.emod_nonneg _ (Int.ne_of_gt hpos), Int.emod_lt_of_pos _ hpos⟩
  have hi := hle i
  have hj' := hle j
  intro h
  have hplace := LaneSet.singleton_inj (by omega) (by omega) hw h
  have hmod : ((first : Int) - i) % width = ((first : Int) - j) % width := by omega
  rw [Int.emod_eq_emod_iff_emod_sub_eq_zero, show (first : Int) - i - (first - j) = j - i by omega,
    Int.emod_eq_of_lt (by omega) (by omega)] at hmod
  omega

theorem Names.chooseAll_taken {first n : Nat} (h : last.Names width) (hpos : 0 < width)
    (hw : width ≤ LaneSet.maxWidth)
    (hvictim : (last.victimPlace width : Int) = ((first : Int) - n) % width)
    {rounds : List (List Probe)}
    (htaken : ∀ probes ∈ rounds, probes.length = width ∧ Probe.Taken probes) :
    ∃ cs, last.chooseAll rounds = .ok cs ∧
      cs.map target = (List.range' n rounds.length).map (turned first width) := by
  induction rounds generalizing last n with
  | nil => exact ⟨[], rfl, rfl⟩
  | cons probes rounds ih =>
    obtain ⟨⟨hl, ht⟩, hrest⟩ := List.forall_mem_cons.1 htaken
    obtain ⟨c, hc⟩ := h.choose_taken ht hl hw
    obtain ⟨hlt, htarget⟩ := h.target_eq hl hpos hw hc
    rw [place_of_taken ht, hl] at hlt htarget
    have hnext : (c.victimPlace width : Int) = ((first : Int) - (n + 1 : Nat)) % width := by
      rw [victimPlace_of_target hlt hw htarget]
      exact LaneSet.cast_pred_mod hpos hvictim
    obtain ⟨cs, hcs, htargets⟩ := ih (.inr ⟨_, hlt, htarget⟩) hnext hrest
    refine ⟨c :: cs, ?_, ?_⟩
    · rw [chooseAll, hc]
      dsimp only
      rw [hcs]
    · rw [List.map_cons, htargets, htarget, List.length_cons, List.range'_succ, List.map_cons,
        turned, ← hvictim, Int.toNat_natCast]

/-- Several banks that found the key are reported, and otherwise one bank is the target: the one that
found it, else the lowest with a free slot, else the next victim. While every slot is taken the
targets go round the banks, and no bank comes back within a round. -/
theorem targets_follow_rule (hpos : 0 < width) (hw : width ≤ LaneSet.maxWidth)
    (h : Reached width last) :
    last.target.toList.length ≤ 1 ∧
    (∀ p ps, (p :: ps).length = width →
      guarded (last.chooseViolation? (p :: ps)) (last.choose (p :: ps)) = .ok
        (if 2 ≤ (Probe.hits (p :: ps)).length then .error ⟨p.key, Probe.hits (p :: ps)⟩
        else .ok
          { target := .singleton (last.place (p :: ps)) width
            found := (p :: ps).any Probe.found
            final := (p :: ps).any fun q => q.found || q.isFree })) ∧
    (∀ probes c, probes.length = width → last.choose probes = .ok c →
      last.place probes < width ∧ c.target.toList = [last.place probes] ∧
        c.keepViolation? = none) ∧
    ∀ rounds : List (List Probe),
      (∀ probes ∈ rounds, probes.length = width ∧ Probe.Taken probes) →
      ∃ cs, last.chooseAll rounds = .ok cs ∧
        cs.map target =
          (List.range rounds.length).map (turned (last.victimPlace width) width) ∧
        ∀ i j c c', i < j → j < i + width → cs[i]? = some c → cs[j]? = some c' →
          c.target ≠ c'.target := by
  have hnames := h.names hpos hw
  refine ⟨hnames.length_toList_le hw, fun p ps hl => ?_, fun probes c hl hc => ?_,
    fun rounds htaken => ?_⟩
  · exact guarded_eq_ok.2 ⟨hnames.chooseViolation? hpos hw hl, hnames.choose_cons hl hpos hw⟩
  · obtain ⟨hlt, htarget⟩ := hnames.target_eq hl hpos hw hc
    refine ⟨hlt, ?_, Names.keepViolation? (.inr ⟨_, hlt, htarget⟩) hw⟩
    rw [htarget, LaneSet.toList_singleton hlt hw]
  · obtain ⟨hlt, -⟩ := hnames.victim_eq hpos hw
    have hvictim : (last.victimPlace width : Int) =
        ((last.victimPlace width : Int) - (0 : Nat)) % width := by
      rw [Int.natCast_zero, Int.sub_zero, ← Int.natCast_emod, Nat.mod_eq_of_lt hlt]
    obtain ⟨cs, hcs, htargets⟩ := hnames.chooseAll_taken hpos hw hvictim htaken
    rw [← List.range_eq_range'] at htargets
    have hget : ∀ n c, cs[n]? = some c → c.target = turned (last.victimPlace width) width n := by
      intro n c hn
      obtain ⟨hlt, -⟩ := List.getElem?_eq_some_iff.1 hn
      have hlength : cs.length = rounds.length := by
        simpa only [List.length_map, List.length_range] using congrArg List.length htargets
      have hat : (cs.map target)[n]? =
          ((List.range rounds.length).map (turned (last.victimPlace width) width))[n]? := by
        rw [htargets]
      rw [List.getElem?_map, hn, List.getElem?_map, List.getElem?_range (hlength ▸ hlt)] at hat
      exact Option.some.inj hat
    refine ⟨cs, hcs, htargets, fun i j c c' hij hj hi hj' => ?_⟩
    rw [hget i c hi, hget j c' hj']
    exact turned_ne hw hij hj

/-- A probe of key 7 whose slot holds that key, another one, or none. -/
def probeOfSeven (found occupied : Bool) : Probe :=
  ⟨7, 0, found, ⟨if found then 7 else 9, 0, occupied⟩⟩

def threeTaken : List Probe :=
  List.replicate 3 (probeOfSeven false true)

/-- The first eviction goes to the last of three banks. From there a key in banks 0 and 2 is reported,
the lower of two free slots is taken, and four more evictions go to the banks 1, 0, 2 and 1. -/
theorem targets_follow_rule_three :
    ∃ last, Reached 3 last ∧ last.target.toList = [2] ∧
      guarded (last.chooseViolation? [probeOfSeven true true, probeOfSeven false true,
          probeOfSeven true true])
        (last.choose [probeOfSeven true true, probeOfSeven false true, probeOfSeven true true]) =
        .ok (.error ⟨7, [0, 2]⟩) ∧
      (∃ c, last.choose [probeOfSeven false true, probeOfSeven false false,
          probeOfSeven false false] = .ok c ∧ c.target.toList = [1] ∧ c.keepViolation? = none) ∧
      ∃ cs, last.chooseAll (List.replicate 4 threeTaken) = .ok cs ∧
        cs.map target = [.singleton 1 3, .singleton 0 3, .singleton 2 3, .singleton 1 3] := by
  have hreached : Reached 3 ⟨.singleton 2 3, false, false⟩ :=
    .keep .initial (rfl : threeTaken.length = 3) rfl
  have htaken : ∀ probes ∈ List.replicate 4 threeTaken,
      probes.length = 3 ∧ Probe.Taken probes := by
    intro probes hprobes
    obtain rfl := List.eq_of_mem_replicate hprobes
    refine ⟨rfl, fun p hp => ?_⟩
    obtain rfl := List.eq_of_mem_replicate hp
    exact ⟨rfl, rfl⟩
  obtain ⟨-, hrule, htarget, hturn⟩ :=
    targets_follow_rule (by decide : 0 < 3) (by decide) hreached
  obtain ⟨cs, hcs, htargets, -⟩ := hturn _ htaken
  refine ⟨_, hreached, rfl, hrule _ _ rfl, ⟨_, rfl, ?_⟩, cs, hcs, htargets⟩
  obtain ⟨-, hone, hkeep⟩ := htarget [probeOfSeven false true, probeOfSeven false false,
    probeOfSeven false false] _ rfl rfl
  exact ⟨hone, hkeep⟩

end Choice
end ClockedCuckoo
