import Proxeus.Lib.Aggregate

/-!
# Lib.Mean

The mean of a list, and when the mean of the means of blocks is the mean of all the elements: for
every assignment of values exactly when the blocks partition the elements and are all of one size
(`mean_means_iff`). `aggregate_means_iff` has this for every key of an aggregation. For sums no two
keys give the same results (`key_eq_of_sums`).
-/

namespace Proxeus
namespace Lib

section

variable {K ε : Type*} [Field K]

def mean (vals : List K) : K := vals.sum / vals.length

theorem mean_perm {vals vals' : List K} (h : vals.Perm vals') : mean vals = mean vals' := by
  rw [mean, mean, h.sum_eq, h.length_eq]

@[simp] theorem mean_singleton (v : K) : mean [v] = v := by simp [mean]

theorem length_flatten_of_length {blocks : List (List ε)} {m : Nat}
    (h : ∀ b ∈ blocks, b.length = m) : blocks.flatten.length = blocks.length * m := by
  rw [List.length_flatten, List.map_congr_left h, List.map_const', List.sum_replicate, smul_eq_mul]

theorem sum_means_of_length {blocks : List (List K)} {m : Nat} (h : ∀ b ∈ blocks, b.length = m) :
    (blocks.map mean).sum = blocks.flatten.sum / m := by
  induction blocks with
  | nil => simp
  | cons b blocks ih =>
    have hrest : ∀ c ∈ blocks, c.length = m := fun c hc => h c (List.mem_cons_of_mem _ hc)
    rw [List.map_cons, List.sum_cons, ih hrest, List.flatten_cons, List.sum_append, mean,
      h b List.mem_cons_self, add_div]

/-- Blocks of one size. -/
theorem mean_means {blocks : List (List K)} {m : Nat} (h : ∀ b ∈ blocks, b.length = m) :
    mean (blocks.map mean) = mean blocks.flatten := by
  rw [mean, sum_means_of_length h, mean, length_flatten_of_length h, List.length_map, Nat.cast_mul,
    div_div, mul_comm]

variable [DecidableEq ε]

/-- The assignment of `1` to one element. -/
def single (e : ε) : ε → K := fun x => if x = e then 1 else 0

theorem sum_single (e : ε) (l : List ε) : (l.map (single e : ε → K)).sum = l.count e := by
  induction l with
  | nil => simp
  | cons x l ih =>
    rw [List.map_cons, List.sum_cons, ih, List.count_cons, single]
    by_cases hx : x = e
    · simp [hx, add_comm]
    · simp [hx]

theorem mean_single (e : ε) (l : List ε) :
    mean (l.map (single e : ε → K)) = (l.count e : K) / l.length := by
  rw [mean, sum_single, List.length_map]

/-- Only the block that holds the element has a mean other than `0`. -/
theorem sum_mean_single {e : ε} {blocks : List (List ε)} (hd : blocks.flatten.Nodup)
    {b : List ε} (hb : b ∈ blocks) (he : e ∈ b) :
    (blocks.map fun c => mean (c.map (single e : ε → K))).sum = 1 / b.length := by
  induction blocks with
  | nil => cases hb
  | cons c blocks ih =>
    rw [List.flatten_cons, List.nodup_append] at hd
    obtain ⟨hc, hrest, hdisj⟩ := hd
    rw [List.map_cons, List.sum_cons, mean_single]
    rcases List.mem_cons.mp hb with rfl | hb
    · have hzero : ∀ c ∈ blocks, mean (c.map (single e : ε → K)) = 0 := by
        intro c hc'
        have hnot : e ∉ c := fun hec => hdisj e he e (List.mem_flatten.mpr ⟨c, hc', hec⟩) rfl
        rw [mean_single, List.count_eq_zero_of_not_mem hnot, Nat.cast_zero, zero_div]
      rw [List.map_congr_left hzero, List.map_const', List.sum_replicate, smul_zero, add_zero,
        List.count_eq_one_of_mem hc he, Nat.cast_one]
    · have hnot : e ∉ c := fun hec => hdisj e hec e (List.mem_flatten.mpr ⟨b, hb, he⟩) rfl
      rw [ih hrest hb, List.count_eq_zero_of_not_mem hnot, Nat.cast_zero, zero_div, zero_add]

variable [CharZero K]

/-- What the mean of the means says about one element. -/
theorem mean_means_single {blocks : List (List ε)} {items : List ε}
    (hd : blocks.flatten.Nodup) (hi : items.Nodup)
    (h : ∀ v : ε → K, mean (blocks.map fun b => mean (b.map v)) = mean (items.map v))
    {b : List ε} (hb : b ∈ blocks) {e : ε} (he : e ∈ b) :
    e ∈ items ∧ items.length = blocks.length * b.length := by
  have hmean := h (single e)
  rw [mean, sum_mean_single hd hb he, mean_single, List.length_map, div_div] at hmean
  have hbpos : (b.length : K) ≠ 0 :=
    Nat.cast_ne_zero.mpr (List.length_pos_of_mem he).ne'
  have hnpos : (blocks.length : K) ≠ 0 :=
    Nat.cast_ne_zero.mpr (List.length_pos_of_mem hb).ne'
  have hmem : e ∈ items := by
    by_contra hnot
    rw [List.count_eq_zero_of_not_mem hnot, Nat.cast_zero, zero_div] at hmean
    exact one_div_ne_zero (mul_ne_zero hbpos hnpos) hmean
  refine ⟨hmem, ?_⟩
  have hipos : (items.length : K) ≠ 0 :=
    Nat.cast_ne_zero.mpr (List.length_pos_of_mem hmem).ne'
  rw [List.count_eq_one_of_mem hi hmem, Nat.cast_one, div_eq_div_iff (mul_ne_zero hbpos hnpos) hipos,
    one_mul, one_mul] at hmean
  exact_mod_cast hmean.trans (mul_comm _ _)

theorem mean_means_iff {blocks : List (List ε)} {items : List ε} (hne : ∀ b ∈ blocks, b ≠ [])
    (hd : blocks.flatten.Nodup) (hi : items.Nodup) :
    (∀ v : ε → K, mean (blocks.map fun b => mean (b.map v)) = mean (items.map v)) ↔
      (∀ e, e ∈ items ↔ ∃ b ∈ blocks, e ∈ b) ∧
        ∀ b ∈ blocks, ∀ b' ∈ blocks, b.length = b'.length := by
  constructor
  · intro h
    refine ⟨fun e => ⟨fun he => ?_, ?_⟩, ?_⟩
    · by_contra hnot
      have hzero : ∀ b ∈ blocks, mean (b.map (single e : ε → K)) = 0 := by
        intro b hb
        have heb : e ∉ b := fun heb => hnot ⟨b, hb, heb⟩
        rw [mean_single, List.count_eq_zero_of_not_mem heb, Nat.cast_zero, zero_div]
      have hmean := h (single e)
      rw [mean_single, List.count_eq_one_of_mem hi he, List.map_congr_left hzero, List.map_const',
        mean, List.sum_replicate, smul_zero, zero_div, Nat.cast_one] at hmean
      exact one_div_ne_zero (Nat.cast_ne_zero.mpr (List.length_pos_of_mem he).ne') hmean.symm
    · rintro ⟨b, hb, he⟩
      exact (mean_means_single hd hi h hb he).1
    · intro b hb b' hb'
      obtain ⟨e, he⟩ := List.exists_mem_of_ne_nil b (hne b hb)
      obtain ⟨e', he'⟩ := List.exists_mem_of_ne_nil b' (hne b' hb')
      have hlen := (mean_means_single hd hi h hb he).2
      rw [(mean_means_single hd hi h hb' he').2] at hlen
      exact (Nat.eq_of_mul_eq_mul_left (List.length_pos_of_mem hb) hlen).symm
  · rintro ⟨hmem, hlen⟩ v
    have hperm : blocks.flatten.Perm items :=
      (List.perm_ext_iff_of_nodup hd hi).mpr fun e => by rw [List.mem_flatten, hmem]
    rw [← mean_perm (hperm.map v), List.map_flatten]
    cases blocks with
    | nil => rfl
    | cons b blocks =>
      have hsize : ∀ c ∈ (b :: blocks).map (List.map v), c.length = b.length := by
        intro c hc
        obtain ⟨c, hc', rfl⟩ := List.mem_map.mp hc
        rw [List.length_map]
        exact hlen c hc' b List.mem_cons_self
      rw [← mean_means hsize, List.map_map]
      rfl

/-! ## Averages by a key -/

variable {κ β : Type*} [DecidableEq κ] {blocks : List β} {block : β → List ε} {items : List ε}
  {key : ε → κ} {blockKey : β → κ}

omit [CharZero K] [DecidableEq ε] in
theorem mem_block_iff_of_key (hkey : ∀ b ∈ blocks, ∀ x ∈ block b, key x = blockKey b) (k : κ) (x : ε) :
    (∃ b ∈ (blocks.filter fun b => blockKey b = k).map block, x ∈ b) ↔
      (∃ b ∈ blocks, x ∈ block b) ∧ key x = k := by
  simp only [List.mem_map, List.mem_filter, decide_eq_true_eq]
  constructor
  · rintro ⟨-, ⟨b, ⟨hb, rfl⟩, rfl⟩, hx⟩
    exact ⟨⟨b, hb, hx⟩, hkey b hb x hx⟩
  · rintro ⟨⟨b, hb, hx⟩, rfl⟩
    exact ⟨_, ⟨b, ⟨hb, (hkey b hb x hx).symm⟩, rfl⟩, hx⟩

/-- The averages of the averages of blocks are the averages of the items, for every assignment of
values, exactly if the blocks of a key are of one size and partition its items. -/
theorem aggregate_means_iff (hne : ∀ b ∈ blocks, block b ≠ []) (hd : (blocks.flatMap block).Nodup)
    (hi : items.Nodup) (hkey : ∀ b ∈ blocks, ∀ x ∈ block b, key x = blockKey b)
    (hkeys : ∀ k, (∃ b ∈ blocks, blockKey b = k) ↔ ∃ x ∈ items, key x = k) :
    (∀ v : ε → K, (aggregate blockKey (fun b => mean ((block b).map v)) mean blocks).Perm
        (aggregate key v mean items)) ↔
      (∀ x, x ∈ items ↔ ∃ b ∈ blocks, x ∈ block b) ∧
        ∀ b ∈ blocks, ∀ b' ∈ blocks, blockKey b = blockKey b' →
          (block b).length = (block b').length := by
  have hmeans : ∀ k, (∀ v : ε → K,
      mean ((blocks.filter fun b => blockKey b = k).map fun b => mean ((block b).map v)) =
        mean ((items.filter fun x => key x = k).map v)) ↔
      (∀ x, x ∈ items.filter (fun x => key x = k) ↔
          ∃ b ∈ (blocks.filter fun b => blockKey b = k).map block, x ∈ b) ∧
        ∀ b ∈ (blocks.filter fun b => blockKey b = k).map block,
          ∀ b' ∈ (blocks.filter fun b => blockKey b = k).map block, b.length = b'.length := by
    intro k
    have hnek : ∀ b ∈ (blocks.filter fun b => blockKey b = k).map block, b ≠ [] := by
      intro l hl
      obtain ⟨b, hb, rfl⟩ := List.mem_map.mp hl
      exact hne b (List.mem_filter.mp hb).1
    have hdk : ((blocks.filter fun b => blockKey b = k).map block).flatten.Nodup := by
      rw [List.flatMap_def] at hd
      exact hd.sublist (List.filter_sublist.map block).flatten
    rw [← mean_means_iff (K := K) hnek hdk (hi.filter _)]
    simp only [List.map_map, Function.comp_def]
  simp only [aggregate_perm_iff, hkeys, true_and, implies_true]
  constructor
  · intro h
    have hk : ∀ k, (∃ x ∈ items, key x = k) → _ := fun k hex => (hmeans k).mp fun v => h v k hex
    refine ⟨fun x => ⟨fun hx => ?_, ?_⟩, fun b hb b' hb' heq => ?_⟩
    · have hmem := ((hk (key x) ⟨x, hx, rfl⟩).1 x).mp
        (List.mem_filter.mpr ⟨hx, decide_eq_true rfl⟩)
      exact ((mem_block_iff_of_key hkey _ x).mp hmem).1
    · rintro ⟨b, hb, hx⟩
      have hmem := (mem_block_iff_of_key hkey (key x) x).mpr ⟨⟨b, hb, hx⟩, rfl⟩
      have hex := (hkeys (key x)).mp ⟨b, hb, (hkey b hb x hx).symm⟩
      exact (List.mem_filter.mp (((hk (key x) hex).1 x).mpr hmem)).1
    · have hex := (hkeys (blockKey b)).mp ⟨b, hb, rfl⟩
      refine (hk (blockKey b) hex).2 _ (List.mem_map_of_mem ?_) _ (List.mem_map_of_mem ?_)
      · exact List.mem_filter.mpr ⟨hb, decide_eq_true rfl⟩
      · exact List.mem_filter.mpr ⟨hb', decide_eq_true heq.symm⟩
  · rintro ⟨hmem, hlen⟩ v k -
    refine (hmeans k).mpr ⟨fun x => ?_, ?_⟩ v
    · rw [mem_block_iff_of_key hkey, ← hmem, List.mem_filter, decide_eq_true_eq]
    · intro l hl l' hl'
      obtain ⟨b, hb, rfl⟩ := List.mem_map.mp hl
      obtain ⟨b', hb', rfl⟩ := List.mem_map.mp hl'
      rw [List.mem_filter, decide_eq_true_eq] at hb hb'
      exact hlen b hb.1 b' hb'.1 (hb.2.trans hb'.2.symm)

/-- Sums by two keys are the same, for every assignment of values, only if the keys are. -/
theorem key_eq_of_sums {key' : ε → κ}
    (h : ∀ v : ε → K, (aggregate key v List.sum items).Perm (aggregate key' v List.sum items)) {x : ε}
    (hx : x ∈ items) : key x = key' x := by
  have hsums := (aggregate_perm_iff.mp (h (single x))).2 (key x) ⟨x, hx, rfl⟩
  rw [sum_single, sum_single, Nat.cast_inj] at hsums
  have hmem : x ∈ items.filter fun y => key y = key x :=
    List.mem_filter.mpr ⟨hx, decide_eq_true rfl⟩
  have hpos := List.count_pos_iff.mpr hmem
  rw [hsums] at hpos
  exact (of_decide_eq_true (List.mem_filter.mp (List.count_pos_iff.mp hpos)).2).symm

end

end Lib
end Proxeus
