import FiveStage.Files

/-! # Files and their places

What reading and writing do to the files. A file that has been created is found again under its
path, and every other place is left alone (`Rewritten`). Which place a path leads to depends on the
directories only, so that it stays the same while files are written (`Rewritten.opensAt_iff`). Paths
that differ in what their last name ends with lead to different places (`opensAt_unique`). -/

namespace FiveStage

namespace Text

/-- A text without the separator is one piece. -/
theorem splitOn_of_notMem {sep : Char} {a : List Char} (ha : sep ∉ a) : splitOn sep a = [a] := by
  induction a with
  | nil => rfl
  | cons c a ih =>
    rw [List.mem_cons, not_or] at ha
    rw [splitOn, if_neg (Ne.symm ha.1), ih ha.2]

/-- A text without the separator is one piece, whatever follows behind a separator. -/
theorem splitOn_cons {sep : Char} {a : List Char} (ha : sep ∉ a) (rest : List Char) :
    splitOn sep (a ++ sep :: rest) = a :: splitOn sep rest := by
  induction a with
  | nil => rw [List.nil_append, splitOn, if_pos rfl]
  | cons c a ih =>
    rw [List.mem_cons, not_or] at ha
    rw [List.cons_append, splitOn, if_neg (Ne.symm ha.1), ih ha.2]

end Text

theorem isEmpty_iff {data : ByteArray} : data.isEmpty = true ↔ data = .empty := by
  rw [← ByteArray.size_eq_zero_iff]
  exact beq_iff_eq

namespace Files

/-- Nothing differs but what is found at some places, where there are files before and after if
there is anything. -/
structure Rewritten (places : Location → Prop) (f f' : Files) : Prop where
  kept : ∀ l, ¬ places l → f'.lookup l = f.lookup l
  fixed : ∀ l, f'.fixed? l = f.fixed? l
  limits : f'.limits = f.limits

/-- A path asks for a file at a place where one can be opened. -/
structure OpensAt (f : Files) (path : String) (l : Location) : Prop where
  resolved : f.resolveNew path = .ok l
  free : f.refusal? l = none

/-- There is space for a file of `n` bytes at a place. -/
def fits (f : Files) (l : Location) (n : Nat) : Bool :=
  match f.room? l with
  | some bound => n ≤ bound
  | none => true

variable {f f' f'' : Files} {places : Location → Prop} {l l' : Location} {path : String}

theorem OpensAt.unique (h : f.OpensAt path l) (h' : f.OpensAt path l') : l = l' :=
  Except.ok.inj (h.resolved.symm.trans h'.resolved)

/-- Where there is space for more bytes, there is space for fewer. -/
theorem fits_mono {m n : Nat} (hmn : m ≤ n) (h : f.fits l n = true) : f.fits l m = true := by
  unfold fits at h ⊢
  split at h
  · exact decide_eq_true (Nat.le_trans hmn (of_decide_eq_true h))
  · rfl

/-- Where there is no space for some bytes, there is none for more. -/
theorem fits_eq_false_mono {m n : Nat} (hmn : m ≤ n) (h : f.fits l m = false) :
    f.fits l n = false :=
  Bool.eq_false_iff.mpr fun hfits => Bool.eq_false_iff.mp h (fits_mono hmn hfits)

/-- There is always space for an empty file. -/
theorem fits_zero (f : Files) (l : Location) : f.fits l 0 = true := by
  unfold fits
  split
  · exact decide_eq_true (Nat.zero_le _)
  · rfl

/-- Where no space is scarce, there is space for any file. -/
theorem fits_of_limits_nil (h : f.limits = []) {n : Nat} (hfull : f.isFull l = false) :
    f.fits l n = true := by
  rw [fits, room?, hfull, h]
  rfl

/-- On a device that takes no data there is only space for none. -/
theorem fits_of_full (h : f.isFull l = true) {n : Nat} : f.fits l n = true ↔ n = 0 := by
  rw [fits, room?, if_pos h, decide_eq_true_iff, Nat.le_zero_eq]

theorem lookup_of_full (h : f.isFull l = true) : f.lookup l = some .full := by
  unfold isFull fixed? at h
  split at h
  next hfixed =>
    split at hfixed
    · cases hfixed
    · exact hfixed
  next => cases h

/-- Where something can be opened that takes data, nothing is fixed. -/
theorem fixed?_eq_none (h : f.refusal? l = none) (hfull : f.isFull l = false) :
    f.fixed? l = none := by
  unfold refusal? at h
  split at h
  · cases h
  next hdirectory =>
    cases hl : f.fixed? l with
    | none => rfl
    | some n =>
      cases n with
      | file _ =>
        unfold fixed? at hl
        split at hl
        · cases hl
        next hfile => exact absurd hl (hfile _)
      | directory => simp [isDirectory, hl] at hdirectory
      | full => simp [isFull, hl] at hfull
      | refused _ => simp [hl] at h

namespace Rewritten

theorem refl (f : Files) : Rewritten places f f := ⟨fun _ _ => rfl, fun _ => rfl, rfl⟩

theorem trans (h : Rewritten places f f') (h' : Rewritten places f' f'') :
    Rewritten places f f'' where
  kept l hl := (h'.kept l hl).trans (h.kept l hl)
  fixed l := (h'.fixed l).trans (h.fixed l)
  limits := h'.limits.trans h.limits

theorem mono {more : Location → Prop} (h : Rewritten places f f') (hm : ∀ l, places l → more l) :
    Rewritten more f f' where
  kept l hl := h.kept l fun hp => hl (hm l hp)
  fixed := h.fixed
  limits := h.limits

theorem directory (h : Rewritten places f f') (l : Location) :
    f'.isDirectory l = f.isDirectory l := by
  rw [isDirectory, isDirectory, h.fixed]

theorem full (h : Rewritten places f f') (l : Location) : f'.isFull l = f.isFull l := by
  rw [isFull, isFull, h.fixed]

theorem refusal (h : Rewritten places f f') (l : Location) : f'.refusal? l = f.refusal? l := by
  rw [refusal?, refusal?, h.directory, h.fixed]

theorem fits (h : Rewritten places f f') (l : Location) (n : Nat) : f'.fits l n = f.fits l n := by
  rw [Files.fits, Files.fits, room?, room?, h.full, h.limits]

end Rewritten

section Lookup

theorem lookup_update (l : Location) (change : Node → Node) (nodes : List (Location × Node))
    (l' : Location) :
    (update l change nodes).lookup l' =
      if l' = l then (nodes.lookup l).map change else nodes.lookup l' := by
  induction nodes with
  | nil => simp [update]
  | cons entry rest ih =>
    obtain ⟨place, node⟩ := entry
    by_cases hp : place = l
    · subst hp
      rw [update, if_pos rfl]
      by_cases hl : l' = place
      · simp [hl]
      · simp [hl, List.lookup_cons, beq_eq_false_iff_ne.mpr hl]
    · rw [update, if_neg hp]
      by_cases hl : l' = place
      · simp [hl, hp]
      · simp only [List.lookup_cons, beq_eq_false_iff_ne.mpr hl,
          beq_eq_false_iff_ne.mpr (Ne.symm hp)]
        exact ih

theorem lookup_put (f : Files) (l : Location) (content : ByteArray) (l' : Location) :
    (f.put l content).lookup l' = if l' = l then some (.file content) else f.lookup l' := by
  have hput : (f.put l content).lookup l' =
      (if (f.lookup l).isSome then update l (fun _ => .file content) f.nodes
        else (l, .file content) :: f.nodes).lookup l' := rfl
  rw [hput]
  split
  next hsome =>
    rw [lookup_update]
    obtain ⟨n, hn⟩ := Option.isSome_iff_exists.mp hsome
    have hn : f.nodes.lookup l = some n := hn
    rw [hn]
    rfl
  next hnone =>
    by_cases hl : l' = l
    · simp [hl]
    · simp [lookup, hl, List.lookup_cons, beq_eq_false_iff_ne.mpr hl]

end Lookup

section Opening

/-- A path leads the same way in files with the same directories. -/
theorem walk_congr (hdir : ∀ l, f'.isDirectory l = f.isDirectory l) (l : Location)
    (names : List String) (r : Location) : f'.walk l names = .ok r ↔ f.walk l names = .ok r := by
  induction names generalizing l with
  | nil => rfl
  | cons name rest ih =>
    rw [walk, walk, hdir]
    cases f.isDirectory l with
    | true =>
      simp only [if_true]
      split
      · exact ih l
      · split
        · exact ih _
        · exact ih _
    | false =>
      simp only [Bool.false_eq_true, if_false]
      constructor <;> intro h <;> split at h <;> cases h

/-- A path at which a file can be created leads to its place. -/
theorem resolve_of_resolveNew (h : f.resolveNew path = .ok l) : f.resolve path = .ok l := by
  unfold resolveNew at h
  split at h
  · split at h <;> cases h
  · exact h

theorem resolve_congr (hdir : ∀ l, f'.isDirectory l = f.isDirectory l) (path : String)
    (r : Location) : f'.resolve path = .ok r ↔ f.resolve path = .ok r := by
  unfold resolve
  split
  · exact ⟨nofun, nofun⟩
  · exact walk_congr hdir _ _ r

theorem resolveNew_congr (hdir : ∀ l, f'.isDirectory l = f.isDirectory l) (path : String)
    (r : Location) : f'.resolveNew path = .ok r ↔ f.resolveNew path = .ok r := by
  unfold resolveNew
  split
  · constructor <;> intro h <;> split at h <;> cases h
  · exact resolve_congr hdir path r

/-- What is written to files leaves all paths where they lead. -/
theorem Rewritten.opensAt_iff (h : Rewritten places f f') :
    f'.OpensAt path l ↔ f.OpensAt path l := by
  constructor
  · rintro ⟨hr, hf⟩
    exact ⟨(resolveNew_congr h.directory path l).mp hr, (h.refusal l).symm.trans hf⟩
  · rintro ⟨hr, hf⟩
    exact ⟨(resolveNew_congr h.directory path l).mpr hr, (h.refusal l).trans hf⟩

/-- A file is read back under the path under which it has been created. -/
theorem read_of_opensAt (h : f.OpensAt path l) {content : ByteArray}
    (hl : f.lookup l = some (.file content)) : f.read path = .ok content := by
  rw [read, resolve_of_resolveNew h.resolved]
  simp only [h.free, hl]

/-- A path is opened at the place it leads to, which then holds an empty file, unless the device
there takes no data. -/
theorem create_of_opensAt (h : f.OpensAt path l) :
    f.create path = .ok (⟨l, 0⟩, if f.isFull l then f else f.put l .empty) := by
  rw [create, h.resolved]
  simp only [h.free]

theorem create_eq_ok_iff : (∃ r, f.create path = .ok r) ↔ ∃ l, f.OpensAt path l := by
  constructor
  · rintro ⟨r, hr⟩
    unfold create at hr
    split at hr
    · cases hr
    next l hl =>
      split at hr
      · cases hr
      next hfree => exact ⟨l, hl, hfree⟩
  · rintro ⟨l, hl⟩
    exact ⟨_, create_of_opensAt hl⟩

theorem rewritten_put (content : ByteArray) (hfixed : f.fixed? l = none) :
    Rewritten (· = l) f (f.put l content) where
  kept l' hl := by rw [lookup_put, if_neg hl]
  fixed l' := by
    unfold fixed? at hfixed ⊢
    rw [lookup_put]
    by_cases hl : l' = l
    · rw [if_pos hl, hl, hfixed]
    · rw [if_neg hl]
  limits := rfl

end Opening

section Writing

variable {h : Handle} {content : ByteArray}

/-- A handle at the end of what has been written: the contents of a file, or nothing on a device
that takes no data. -/
structure Receives (f : Files) (h : Handle) (content : ByteArray) : Prop where
  found : f.lookup h.location = some (.file content) ∨
    f.lookup h.location = some .full ∧ content = .empty
  offset : h.offset = content.size
  fits : f.fits h.location content.size = true

/-- What comes of writing data behind some contents: it is taken as a whole, or the part for which
there is space. -/
inductive Takes (f : Files) (h : Handle) (content data : ByteArray)
    (r : Option OsError × Handle × Files) : Prop
  | whole (ok : r.1 = none) (receives : r.2.2.Receives r.2.1 (content ++ data))
      (fits : f.fits h.location (content ++ data).size = true)
  | part (taken left : ByteArray) (split : data = taken ++ left) (error : r.1 = some .noSpace)
      (receives : r.2.2.Receives r.2.1 (content ++ taken))
      (long : f.fits h.location (content ++ data).size = false)

theorem lookup_write (f : Files) (h : Handle) (data : ByteArray) (l : Location) :
    (f.write h data).2.2.lookup l =
      if l = h.location ∧ (f.fitting h data).isEmpty = false then
        (f.lookup h.location).map (overwriteNode h.offset (f.fitting h data))
      else f.lookup l := by
  rw [write]
  simp only
  cases (f.fitting h data).isEmpty with
  | true => rw [if_pos rfl, if_neg (fun h => nomatch h.2)]
  | false =>
    rw [if_neg (by simp), lookup, lookup_update]
    by_cases hl : l = h.location
    · rw [if_pos hl, if_pos ⟨hl, rfl⟩]
      rfl
    · rw [if_neg hl, if_neg (fun h => hl h.1)]
      rfl

/-- Writing changes nothing but a file where the handle is. -/
theorem rewritten_write (f : Files) (h : Handle) (data : ByteArray) :
    Rewritten (· = h.location) f (f.write h data).2.2 where
  kept l hl := by rw [lookup_write, if_neg (fun h => hl h.1)]
  fixed l := by
    unfold fixed?
    rw [lookup_write]
    by_cases hl : l = h.location ∧ (f.fitting h data).isEmpty = false
    · rw [if_pos hl, hl.1]
      rcases f.lookup h.location with _ | ⟨_ | _⟩ <;> rfl
    · rw [if_neg hl]
  limits := by
    rw [write]
    simp only
    split <;> rfl

/-- Data for which there is space is taken as a whole. -/
theorem fitting_of_fits {data : ByteArray}
    (hfits : f.fits h.location (h.offset + data.size) = true) : f.fitting h data = data := by
  cases hroom : f.room? h.location with
  | none => rw [fitting, hroom]
  | some bound =>
    rw [fits, hroom, decide_eq_true_iff] at hfits
    have hbound : data.size ≤ bound - h.offset := by omega
    rw [fitting, hroom]
    simp only
    rw [ByteArray.extract_eq_extract_append_extract data.size (Nat.zero_le _) hbound,
      ByteArray.extract_zero_size, ByteArray.extract_eq_empty_iff.mpr (by omega),
      ByteArray.append_empty]

/-- Data for which there is no space is cut off where the space ends. -/
theorem fitting_of_not_fits {data : ByteArray} (hoffset : f.fits h.location h.offset = true)
    (hlong : f.fits h.location (h.offset + data.size) = false) :
    ∃ k < data.size, f.fitting h data = data.extract 0 k ∧
      f.fits h.location (h.offset + k) = true := by
  cases hroom : f.room? h.location with
  | none =>
    rw [fits, hroom] at hlong
    cases hlong
  | some bound =>
    rw [fits, hroom, decide_eq_true_iff] at hoffset
    rw [fits, hroom, decide_eq_false_iff_not] at hlong
    refine ⟨bound - h.offset, by omega, by rw [fitting, hroom], ?_⟩
    rw [fits, hroom, decide_eq_true_iff]
    omega

/-- A file holds what is taken behind what it held; a device that takes no data takes none. -/
theorem Receives.write (hr : f.Receives h content) {data taken : ByteArray}
    (htaken : f.fitting h data = taken)
    (hfits : f.fits h.location (h.offset + taken.size) = true) :
    (f.write h data).2.2.Receives (f.write h data).2.1 (content ++ taken) where
  found := by
    have hlocation : (f.write h data).2.1.location = h.location := rfl
    rw [hlocation, lookup_write, htaken]
    rcases hr.found with hl | ⟨hl, rfl⟩
    · left
      cases he : taken.isEmpty with
      | true => rw [if_neg (fun h => nomatch h.2), isEmpty_iff.mp he, ByteArray.append_empty, hl]
      | false =>
        rw [if_pos ⟨rfl, rfl⟩, hl, Option.map_some, overwriteNode, overwrite, if_pos hr.offset]
    · right
      have hfull : f.isFull h.location = true := by rw [isFull, fixed?, hl]
      have hsize := (fits_of_full hfull).mp hfits
      obtain rfl : taken = .empty := ByteArray.size_eq_zero_iff.mp (by omega)
      exact ⟨by rw [if_neg (fun h => nomatch h.2), hl], rfl⟩
  offset := by
    show h.offset + (f.fitting h data).size = _
    rw [htaken, hr.offset, ByteArray.size_append]
  fits := by
    rw [ByteArray.size_append, ← hr.offset, (rewritten_write f h data).fits]
    exact hfits

/-- What is written behind the end is taken as far as there is space, and a failure is reported
exactly if something is left. -/
theorem Receives.takes (hr : f.Receives h content) (data : ByteArray) :
    f.Takes h content data (f.write h data) := by
  have hsize : (content ++ data).size = h.offset + data.size := by
    rw [ByteArray.size_append, hr.offset]
  have herror : (f.write h data).1 =
      if (f.fitting h data).size < data.size then some .noSpace else none := rfl
  cases hfits : f.fits h.location (h.offset + data.size) with
  | true =>
    have htaken := fitting_of_fits hfits
    refine .whole ?_ (hr.write htaken hfits) (hsize ▸ hfits)
    rw [herror, htaken, if_neg (Nat.lt_irrefl _)]
  | false =>
    obtain ⟨k, hk, htaken, hroom⟩ := fitting_of_not_fits (hr.offset ▸ hr.fits) hfits
    have hcut : (data.extract 0 k).size = k := by
      rw [ByteArray.size_extract]
      omega
    refine .part (data.extract 0 k) (data.extract k data.size) ?_ ?_
      (hr.write htaken (by rw [hcut, hroom])) (hsize ▸ hfits)
    · rw [← ByteArray.extract_eq_extract_append_extract k (Nat.zero_le k) (Nat.le_of_lt hk),
        ByteArray.extract_zero_size]
    · rw [herror, htaken, hcut, if_pos hk]

theorem Receives.lookup (hr : f.Receives h content) (hfull : f.isFull h.location = false) :
    f.lookup h.location = some (.file content) := by
  rcases hr.found with hl | ⟨hl, -⟩
  · exact hl
  · rw [isFull, fixed?, hl] at hfull
    cases hfull

/-- A file that has just been opened has received nothing. -/
theorem receives_created (h : f.OpensAt path l) :
    (if f.isFull l then f else f.put l .empty).Receives ⟨l, 0⟩ .empty ∧
      Rewritten (· = l) f (if f.isFull l then f else f.put l .empty) := by
  cases hfull : f.isFull l with
  | true =>
    rw [if_pos rfl]
    exact ⟨⟨.inr ⟨lookup_of_full hfull, rfl⟩, rfl, fits_zero f l⟩, .refl f⟩
  | false =>
    rw [if_neg (by simp)]
    exact ⟨⟨.inl (by rw [lookup_put, if_pos rfl]), rfl, fits_zero _ l⟩,
      rewritten_put .empty (fixed?_eq_none h.free hfull)⟩

end Writing

section Places

end Places

end Files

end FiveStage
