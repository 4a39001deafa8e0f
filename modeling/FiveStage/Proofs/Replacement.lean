import Mathlib.Data.List.Dedup
import Mathlib.Data.List.DropRight
import FiveStage.Proofs.Geometry

/-! # Least recently used

A cache set keeps the tags that were used last, as many as it has ways, in the order of their last
use (`RecencySet.Recent`). Presenting a tag keeps this order, on a hit as on a miss
(`RecencySet.Recent.touch`), and an access presents one tag to one set and nothing to the others, so
that after any sequence of accesses each set of a cache is told by what was presented to it
(`cache_least_recently_used`). -/

namespace FiveStage

/-- In a history of tags, one was used for the last time before another was. -/
def UsedBefore (history : List Nat) (s t : Nat) : Prop :=
  ∃ before since, history = before ++ s :: since ∧ s ∉ since ∧ t ∈ since

section History

variable (history : List Nat) (t : Nat)

/-- Using a tag puts it behind the others. -/
theorem dedup_concat : (history ++ [t]).dedup = history.dedup.erase t ++ [t] := by
  induction history with
  | nil => simp
  | cons s rest ih =>
    rw [List.cons_append]
    by_cases hs : s ∈ rest
    · rw [List.dedup_cons_of_mem (List.mem_append_left _ hs), List.dedup_cons_of_mem hs, ih]
    · rw [List.dedup_cons_of_notMem hs]
      by_cases hst : s = t
      · subst hst
        rw [List.dedup_cons_of_mem (by simp), ih, List.erase_cons_head,
          List.erase_of_not_mem (mt List.mem_dedup.mp hs)]
      · rw [List.dedup_cons_of_notMem (by simp [hs, hst]), ih,
          List.erase_cons_tail (by simpa using hst), List.cons_append]

/-- The distinct tags of a history, the last occurrence of each kept, stand in the order of their
last use. -/
theorem pairwise_dedup : history.dedup.Pairwise (UsedBefore history) := by
  induction history with
  | nil => exact .nil
  | cons s rest ih =>
    have hrest : rest.dedup.Pairwise (UsedBefore (s :: rest)) := by
      refine ih.imp ?_
      rintro a b ⟨before, since, rfl, h⟩
      exact ⟨s :: before, since, rfl, h⟩
    by_cases hs : s ∈ rest
    · rwa [List.dedup_cons_of_mem hs]
    · rw [List.dedup_cons_of_notMem hs]
      exact .cons (fun b hb => ⟨[], rest, rfl, hs, List.mem_dedup.mp hb⟩) hrest

/-- The last `n` elements of a list with at most so many others behind them. -/
theorem rtake_append_of_le (xs ys : List Nat) {n : Nat} (h : ys.length ≤ n) :
    (xs ++ ys).rtake n = xs.rtake (n - ys.length) ++ ys := by
  have e : xs.length + ys.length - n = xs.length - (n - ys.length) := by omega
  rw [List.rtake, List.rtake, List.length_append, List.drop_append, e,
    Nat.sub_eq_zero_of_le (Nat.sub_le _ _), List.drop_zero]

theorem rtake_append_of_ge (xs ys : List Nat) {n : Nat} (h : n ≤ ys.length) :
    (xs ++ ys).rtake n = ys.rtake n := by
  have e : xs.length + ys.length - n - xs.length = ys.length - n := by omega
  rw [List.rtake, List.rtake, List.length_append, List.drop_append, e,
    List.drop_eq_nil_of_le (by omega), List.nil_append]

/-- A tag is among the last `n` distinct ones if fewer than `n` distinct ones were used behind its
last use. -/
theorem mem_rtake_dedup (before since : List Nat) (n : Nat) (h : t ∉ since) :
    t ∈ (before ++ t :: since).dedup.rtake n ↔ since.dedup.length < n := by
  obtain ⟨older, -, e⟩ := List.sublist_suffix_of_union before (t :: since.dedup)
  rw [List.dedup_append, List.dedup_cons_of_notMem h, ← e]
  rcases Nat.lt_or_ge since.dedup.length n with hlt | hge
  · rw [rtake_append_of_le _ _ (Nat.succ_le_of_lt hlt)]
    simp [hlt]
  · rw [List.append_cons, rtake_append_of_ge _ _ hge]
    have hnot : t ∉ since.dedup.rtake n := fun ht =>
      h (List.mem_dedup.mp (List.mem_of_mem_drop ht))
    simp [hnot, hge]

end History

namespace RecencySet

/-- A set holds the tags of a history that were used last, as many as it has ways, in the order of
their last use. -/
structure Recent (n : Nat) (history : List Nat) (s : RecencySet) : Prop where
  ways : s.ways = n
  tags : s.tags = history.dedup.rtake n

variable {n : Nat} {history : List Nat} {s : RecencySet}

theorem Recent.length_le (h : s.Recent n history) : s.tags.length ≤ n := by
  rw [h.tags, List.rtake, List.length_drop]
  omega

/-- Only a full set has lost tags. -/
theorem Recent.split (h : s.Recent n history) :
    ∃ older, history.dedup = older ++ s.tags ∧ (s.tags.length < n → older = []) := by
  refine ⟨history.dedup.take (history.dedup.length - n), ?_, fun hlt => ?_⟩
  · rw [h.tags, List.rtake, List.take_append_drop]
  · rw [h.tags, List.rtake, List.length_drop] at hlt
    rw [Nat.sub_eq_zero_of_le (by omega), List.take_zero]

/-- Presenting a tag keeps the order of the last use. -/
theorem Recent.touch (h : s.Recent n history) (hpos : 0 < n) (t : Nat) :
    (s.touch t).Recent n (history ++ [t]) := by
  obtain ⟨older, hsplit, hroom⟩ := h.split
  have hle := h.length_le
  have hways := h.ways
  have hnodup := history.nodup_dedup
  rw [hsplit] at hnodup
  obtain ⟨n, rfl⟩ := Nat.exists_eq_succ_of_ne_zero hpos.ne'
  have hgoal : ∀ tags, tags = ((older ++ s.tags).erase t).rtake n →
      ({ s with tags := tags ++ [t] } : RecencySet).Recent (n + 1) (history ++ [t]) := by
    rintro tags rfl
    exact ⟨hways, by rw [dedup_concat, hsplit, List.rtake_concat_succ]⟩
  unfold RecencySet.touch
  simp only [contains, List.contains_iff_mem]
  split
  next hmem =>
    -- the tag moves to the end
    have hold : t ∉ older := fun hold => (List.disjoint_of_nodup_append hnodup) hold hmem
    have hlen := List.length_erase_of_mem hmem
    refine hgoal _ ?_
    rw [List.erase_append_right _ hold, rtake_append_of_le _ _ (by omega)]
    rcases Nat.lt_or_ge s.tags.length (n + 1) with hlt | hge
    · rw [hroom hlt]; simp
    · rw [hlen, show n - (s.tags.length - 1) = 0 by omega]; simp
  next hmem =>
    have herase : (older ++ s.tags).erase t = older.erase t ++ s.tags := by
      rw [List.erase_append, List.erase_of_not_mem hmem]
      split
      next => rfl
      next hold => rw [List.erase_of_not_mem hold]
    split
    next hfull =>
      refine hgoal _ ?_
      rw [herase, rtake_append_of_ge _ _ (by omega), List.rtake,
        show s.tags.length - n = 1 by omega, List.drop_one]
    next hfull =>
      refine hgoal _ ?_
      rw [herase, rtake_append_of_le _ _ (by omega), hroom (by omega)]
      simp

end RecencySet

namespace Geometry

variable (g : Geometry) (i : Nat) (addrs : List Word)

/-- The tags that a sequence of addresses presents to a set. -/
def history : List Nat := (addrs.filter fun addr => g.setOf addr = i).map g.tagOf

/-- The block of an address has been used before, and fewer other blocks of its set than the set has
ways have been used since. -/
def Resident (addr : Word) : Prop :=
  ∃ before b since, addrs = before ++ b :: since ∧ g.blockOf b = g.blockOf addr ∧
    (∀ x ∈ since, g.blockOf x ≠ g.blockOf addr) ∧
    ((since.filter fun x => g.setOf x = g.setOf addr).map g.blockOf).dedup.length < g.ways

variable {g i addrs}

theorem history_append (addrs' : List Word) :
    g.history i (addrs ++ addrs') = g.history i addrs ++ g.history i addrs' := by
  simp [history]

theorem history_of_set {addr : Word} (h : g.setOf addr = i) :
    g.history i (addr :: addrs) = g.tagOf addr :: g.history i addrs := by
  simp [history, h]

theorem history_of_other {addr : Word} (h : g.setOf addr ≠ i) :
    g.history i (addr :: addrs) = g.history i addrs := by
  simp [history, h]

theorem mem_history_iff (addr : Word) :
    g.tagOf addr ∈ g.history (g.setOf addr) addrs ↔ ∃ b ∈ addrs, g.blockOf b = g.blockOf addr := by
  simp only [history, List.mem_map, List.mem_filter, decide_eq_true_eq, and_assoc,
    setOf_tagOf_iff]

/-- Within a set there are as many blocks as tags. -/
theorem length_dedup_history (hpos : 0 < g.sets) :
    (g.history i addrs).dedup.length =
      ((addrs.filter fun addr => g.setOf addr = i).map g.blockOf).dedup.length := by
  have hblocks : (addrs.filter fun addr => g.setOf addr = i).map g.blockOf =
      (g.history i addrs).map fun t => t * g.sets + i := by
    rw [history, List.map_map]
    refine List.map_congr_left fun addr haddr => ?_
    have hset : g.setOf addr = i := by simpa using (List.mem_filter.mp haddr).2
    rw [← hset]
    exact (g.tagOf_mul_add addr).symm
  have hinj : Function.Injective fun t => t * g.sets + i := fun s t h =>
    Nat.eq_of_mul_eq_mul_right hpos (Nat.add_right_cancel h)
  rw [hblocks, List.dedup_map_of_injective hinj, List.length_map]

/-- The last use of a block. -/
theorem exists_last {addr : Word} (h : ∃ b ∈ addrs, g.blockOf b = g.blockOf addr) :
    ∃ before b since, addrs = before ++ b :: since ∧ g.blockOf b = g.blockOf addr ∧
      ∀ x ∈ since, g.blockOf x ≠ g.blockOf addr := by
  induction addrs with
  | nil => simp at h
  | cons b rest ih =>
    by_cases hrest : ∃ b ∈ rest, g.blockOf b = g.blockOf addr
    · obtain ⟨before, b', since, rfl, hlast⟩ := ih hrest
      exact ⟨b :: before, b', since, rfl, hlast⟩
    · refine ⟨[], b, rest, rfl, ?_, fun x hx hsame => hrest ⟨x, hx, hsame⟩⟩
      obtain ⟨b', hb', hsame⟩ := h
      rcases List.mem_cons.mp hb' with rfl | hb'
      · exact hsame
      · exact absurd ⟨b', hb', hsame⟩ hrest

/-- A block is resident exactly if its tag is one of those that were used last in its set. -/
theorem resident_iff (hpos : 0 < g.sets) (addr : Word) :
    g.Resident addrs addr ↔
      g.tagOf addr ∈ (g.history (g.setOf addr) addrs).dedup.rtake g.ways := by
  have last : ∀ before b since, g.blockOf b = g.blockOf addr →
      (∀ x ∈ since, g.blockOf x ≠ g.blockOf addr) →
      (g.tagOf addr ∈
          (g.history (g.setOf addr) (before ++ b :: since)).dedup.rtake g.ways ↔
        ((since.filter fun x => g.setOf x = g.setOf addr).map g.blockOf).dedup.length
          < g.ways) := by
    intro before b since hb hsince
    obtain ⟨hset, htag⟩ := (g.setOf_tagOf_iff b addr).mpr hb
    have hnot : g.tagOf addr ∉ g.history (g.setOf addr) since := fun hmem => by
      obtain ⟨x, hx, hsame⟩ := (mem_history_iff addr).mp hmem
      exact hsince x hx hsame
    rw [history_append, history_of_set hset, htag, mem_rtake_dedup _ _ _ _ hnot,
      length_dedup_history hpos]
  constructor
  · rintro ⟨before, b, since, rfl, hb, hsince, hlt⟩
    exact (last before b since hb hsince).mpr hlt
  · intro hmem
    have hused : g.tagOf addr ∈ g.history (g.setOf addr) addrs :=
      List.mem_dedup.mp (List.mem_of_mem_drop hmem)
    obtain ⟨before, b, since, rfl, hb, hsince⟩ := exists_last ((mem_history_iff addr).mp hused)
    exact ⟨before, b, since, rfl, hb, hsince, (last before b since hb hsince).mp hmem⟩

end Geometry

namespace Cache

/-- An empty cache of an accepted shape to which a sequence of addresses has been presented. -/
structure Recent (g : Geometry) (addrs : List Word) (c : Cache) : Prop where
  shaped : c.Shaped g
  sets : ∀ i (h : i < c.sets.size), c.sets[i].Recent g.ways (g.history i addrs)
  traffic : c.traffic = addrs.length

variable {g : Geometry} {addrs : List Word} {c : Cache}

theorem recent_of_build {name : String} (h : build name g = .ok c) : c.Recent g [] := by
  have hshaped := shaped_of_build h
  unfold build at h
  split at h
  next => cases h
  next =>
    cases h
    refine ⟨hshaped, fun i hi => ?_, rfl⟩
    rw [Array.getElem_replicate]
    exact ⟨rfl, by simp [Geometry.history]⟩

theorem Recent.access (h : c.Recent g addrs) (addr : Word) :
    (c.access addr).Recent g (addrs ++ [addr]) := by
  refine ⟨h.shaped.access addr, fun i hi => ?_, ?_⟩
  · have hi' : i < c.sets.size := by
      rw [(h.shaped.access addr).sets] at hi
      rwa [h.shaped.sets]
    have e : (c.access addr).sets[i] =
        if c.index addr = i then c.sets[i].touch (c.tag addr) else c.sets[i] := by
      simp only [sets_access, Array.getElem_modify]
    rw [e, h.shaped.index_eq, h.shaped.tag_eq, Geometry.history_append]
    split
    next hset =>
      rw [Geometry.history_of_set hset]
      exact (h.sets i hi').touch h.shaped.accepted.ways _
    next hset =>
      rw [Geometry.history_of_other hset]
      simpa [Geometry.history] using h.sets i hi'
  · rw [traffic_access, h.traffic, List.length_append]
    rfl

theorem Recent.feed (h : c.Recent g addrs) (addrs' : List Word) :
    (c.feed addrs').Recent g (addrs ++ addrs') := by
  induction addrs' generalizing c addrs with
  | nil => rwa [List.append_nil]
  | cons addr rest ih =>
    rw [List.append_cons]
    exact ih (h.access addr)

theorem Recent.setTags_eq (h : c.Recent g addrs) (i : Nat) :
    c.setTags i = (g.history i addrs).dedup.rtake g.ways := by
  unfold setTags
  rcases Nat.lt_or_ge i c.sets.size with hi | hi
  · rw [Array.getElem?_eq_getElem hi]
    exact (h.sets i hi).tags
  · -- no address belongs to such a set
    have hnone : g.history i addrs = [] := by
      have hfar : ∀ addr, g.setOf addr ≠ i := by
        rintro addr rfl
        exact Nat.not_lt_of_le hi (h.shaped.index_eq addr ▸ h.shaped.index_lt addr)
      simp [Geometry.history, hfar]
    rw [Array.getElem?_eq_none hi, hnone]
    simp

theorem Recent.pairwise (h : c.Recent g addrs) (i : Nat) :
    (c.setTags i).Pairwise (UsedBefore (g.history i addrs)) := by
  rw [h.setTags_eq]
  exact (pairwise_dedup _).sublist (List.drop_sublist _ _)

theorem Recent.contains_iff (h : c.Recent g addrs) (addr : Word) :
    c.contains addr = true ↔ g.Resident addrs addr := by
  have hpos : 0 < g.sets := by
    obtain ⟨k, hk⟩ := h.shaped.accepted.sets
    exact hk ▸ Nat.two_pow_pos k
  rw [contains, List.contains_iff_mem, h.shaped.index_eq, h.shaped.tag_eq, h.setTags_eq,
    Geometry.resident_iff hpos]

/-- An access touches the set of its address. -/
theorem Recent.setTags_access (h : c.Recent g addrs) (addr : Word) (i : Nat) :
    (c.access addr).setTags i =
      if g.setOf addr = i then (c.sets[i]?.map fun s => (s.touch (g.tagOf addr)).tags).getD []
      else c.setTags i := by
  rw [setTags, sets_access, Array.getElem?_modify, h.shaped.index_eq, h.shaped.tag_eq]
  by_cases hi : g.setOf addr = i
  · rw [if_pos hi, if_pos hi]
    cases c.sets[i]? <;> rfl
  · rw [if_neg hi, if_neg hi]
    rfl

/-- A miss in a set with room brings its tag in, a miss in a full set puts out the tag whose last
use is the oldest. -/
theorem Recent.miss (h : c.Recent g addrs) {addr : Word} (hmiss : c.contains addr = false) :
    ∃ s, c.sets[g.setOf addr]? = some s ∧
      (s.tags.length < g.ways → s.outcome (g.tagOf addr) = .miss none) ∧
      (s.tags.length = g.ways → ∃ t rest, s.tags = t :: rest ∧
        s.outcome (g.tagOf addr) = .miss (some t) ∧
        (c.access addr).setTags (g.setOf addr) = rest ++ [g.tagOf addr] ∧
        ∀ t' ∈ rest, UsedBefore (g.history (g.setOf addr) addrs) t t') := by
  have hi : g.setOf addr < c.sets.size := h.shaped.index_eq addr ▸ h.shaped.index_lt addr
  have hs := Array.getElem?_eq_getElem hi
  have hways := (h.sets _ hi).ways
  have htags : c.setTags (g.setOf addr) = c.sets[g.setOf addr].tags := by rw [setTags, hs]
  have hnot : c.sets[g.setOf addr].contains (g.tagOf addr) = false := by
    rw [← hmiss, contains, h.shaped.index_eq, h.shaped.tag_eq, htags]
    rfl
  refine ⟨_, hs, fun hroom => ?_, fun hfull => ?_⟩
  · rw [RecencySet.outcome, hnot, hways, if_neg (by decide), if_neg (Nat.not_le.mpr hroom)]
  · obtain ⟨t, rest, hcons⟩ := List.exists_cons_of_length_pos (hfull ▸ h.shaped.accepted.ways)
    have hle := Nat.le_of_eq hfull.symm
    have hpairwise := h.pairwise (g.setOf addr)
    rw [htags, hcons] at hpairwise
    refine ⟨t, rest, hcons, ?_, ?_, (List.pairwise_cons.mp hpairwise).1⟩
    · rw [RecencySet.outcome, hnot, hways, if_neg (by decide), if_pos hle, hcons, List.head?_cons]
    · rw [h.setTags_access, if_pos rfl, hs, Option.map_some, Option.getD_some, RecencySet.touch,
        hnot, hways, if_neg (by decide), if_pos hle, hcons, List.tail_cons]

section Sequences

variable (c : Cache) (accesses : List CacheAccess)

theorem serveAll_snd : (c.serveAll accesses).2 = c.feed (accesses.map (·.addr)) := by
  induction accesses generalizing c with
  | nil => rfl
  | cons a rest ih => exact ih (c.access a.addr)

theorem serveAll_concat (a : CacheAccess) :
    c.serveAll (accesses ++ [a]) =
      ((c.serveAll accesses).1 ++ [((c.serveAll accesses).2.serve a).1],
        ((c.serveAll accesses).2.serve a).2) := by
  induction accesses generalizing c with
  | nil => rfl
  | cons b rest ih =>
    have := ih (c.access b.addr)
    simp only [List.cons_append, serveAll, serve, this]

/-- What an access does makes no difference to any answer. -/
theorem serveAll_congr {accesses' : List CacheAccess}
    (h : accesses'.map (·.addr) = accesses.map (·.addr)) :
    c.serveAll accesses' = c.serveAll accesses := by
  induction accesses generalizing c accesses' with
  | nil => rw [List.map_eq_nil_iff.mp h]
  | cons a rest ih =>
    obtain ⟨a', rest', rfl, haddr, hrest⟩ := List.map_eq_cons_iff.mp h
    simp only [serveAll, serve, haddr, ih _ hrest]

/-- Every answer is counted. -/
theorem counts_serveAll :
    (c.serveAll accesses).2.hits = c.hits + (c.serveAll accesses).1.count true ∧
      (c.serveAll accesses).2.misses = c.misses + (c.serveAll accesses).1.count false := by
  induction accesses generalizing c with
  | nil => exact ⟨rfl, rfl⟩
  | cons a rest ih =>
    obtain ⟨hh, hm⟩ := ih (c.access a.addr)
    have hmiss := c.misses_access a.addr
    have htraffic := c.traffic_access a.addr
    unfold traffic at htraffic
    simp only [serveAll, serve, hh, hm]
    cases hc : c.contains a.addr <;> simp [hc] at hmiss ⊢ <;> omega

end Sequences

end Cache

/-- A cache is a true cache of the least recently used. After any sequence of accesses, which may
read and write as they like, each set holds the tags used last in it, as many as it has ways and no
tag twice, in the order of their last use. An access hits exactly if its block has been used before
and fewer other blocks of its set than it has ways since then; a miss in a full set puts out the tag
whose last use is the oldest, and no access touches another set than its own. Every access is
counted. -/
theorem cache_least_recently_used {g : Geometry} {name : String} {c : Cache}
    (h : Cache.build name g = .ok c) (accesses : List CacheAccess) :
    let addrs := accesses.map (·.addr)
    let d := (c.serveAll accesses).2
    (∀ i, d.setTags i = (g.history i addrs).dedup.rtake g.ways ∧
      (d.setTags i).length ≤ g.ways ∧ (d.setTags i).Nodup ∧
      (d.setTags i).Pairwise (UsedBefore (g.history i addrs))) ∧
    (∀ a, c.serveAll (accesses ++ [a]) =
        ((c.serveAll accesses).1 ++ [(d.serve a).1], (d.serve a).2) ∧
      ((d.serve a).1 = true ↔ g.Resident addrs a.addr) ∧
      (∀ i, i ≠ g.setOf a.addr → (d.serve a).2.setTags i = d.setTags i) ∧
      ((d.serve a).1 = false → ∃ s, d.sets[g.setOf a.addr]? = some s ∧
        (s.tags.length < g.ways → s.outcome (g.tagOf a.addr) = .miss none) ∧
        (s.tags.length = g.ways → ∃ t rest, s.tags = t :: rest ∧
          s.outcome (g.tagOf a.addr) = .miss (some t) ∧
          (d.serve a).2.setTags (g.setOf a.addr) = rest ++ [g.tagOf a.addr] ∧
          ∀ t' ∈ rest, UsedBefore (g.history (g.setOf a.addr) addrs) t t'))) ∧
    d.hits + d.misses = accesses.length ∧
    d.hits = (c.serveAll accesses).1.count true ∧ d.misses = (c.serveAll accesses).1.count false ∧
    ∀ accesses' : List CacheAccess, accesses'.map (·.addr) = addrs →
      c.serveAll accesses' = c.serveAll accesses := by
  intro addrs d
  have hd : d.Recent g addrs := by
    rw [show d = c.feed addrs from c.serveAll_snd accesses]
    exact (Cache.recent_of_build h).feed addrs
  have hempty : c.hits = 0 ∧ c.misses = 0 := by
    have htraffic := (Cache.recent_of_build h).traffic
    exact Nat.add_eq_zero_iff.mp htraffic
  obtain ⟨hhits, hmisses⟩ := c.counts_serveAll accesses
  rw [hempty.1, Nat.zero_add] at hhits
  rw [hempty.2, Nat.zero_add] at hmisses
  refine ⟨fun i => ⟨hd.setTags_eq i, ?_, ?_, hd.pairwise i⟩, fun a => ?_, ?_, hhits, hmisses,
    fun _ => c.serveAll_congr accesses⟩
  · rw [hd.setTags_eq, List.rtake, List.length_drop]
    omega
  · rw [hd.setTags_eq]
    exact (List.nodup_dedup _).sublist (List.drop_sublist _ _)
  · refine ⟨c.serveAll_concat accesses a, hd.contains_iff a.addr, fun i hi => ?_, hd.miss⟩
    exact (hd.setTags_access a.addr i).trans (if_neg hi.symm)
  · exact hd.traffic.trans (List.length_map _)

/-- Two sets of two ways, and three blocks in the first set: the first of them is put out. -/
theorem cache_least_recently_used_full :
    ∃ c, Cache.build "D-cache" ⟨64, 16, 2, 5⟩ = .ok c ∧
      let d := (c.serveAll [⟨.read, 0x00⟩, ⟨.write, 0x20⟩, ⟨.read, 0x40⟩]).2
      d.setTags 0 = [1, 2] ∧ d.hits + d.misses = 3 ∧
        ((d.serve ⟨.write, 0x00⟩).1 = true ↔
          Geometry.Resident ⟨64, 16, 2, 5⟩ [0x00, 0x20, 0x40] 0x00) := by
  obtain ⟨c, h⟩ : ∃ c, Cache.build "D-cache" ⟨64, 16, 2, 5⟩ = .ok c := ⟨_, rfl⟩
  obtain ⟨hsets, hnext, hcount, -⟩ :=
    cache_least_recently_used h [⟨.read, 0x00⟩, ⟨.write, 0x20⟩, ⟨.read, 0x40⟩]
  exact ⟨c, h, (hsets 0).1.trans (by decide), hcount, (hnext ⟨.write, 0x00⟩).2.1⟩

end FiveStage
