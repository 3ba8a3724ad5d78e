import Mathlib
import Nomo.Migration.Replace

/-!
# All or nothing

While the files are replaced, those that are done hold their new content and have a backup, and the
others have their new content beside them (`Swapped`).  From there a rollback and the removal of the new
contents lead back to the disk as it was.  Two errors are not undone: the rename that fails when a new
content is to take its place leaves that one behind, and so does a write that fails with a part of the
file written.
-/

namespace Nomo.Migration

open Nomo.Lib Nomo.Lib.Disk

/-- An update with the names next to its file. -/
structure Slot where
  update : FileUpdate
  temporary : Path
  backup : Path

/-- The updates from an index on with their names. -/
def slots (processId nonce : Nat) : Nat → List FileUpdate → List Slot
  | _, [] => []
  | index, update :: rest =>
    ⟨update, generatedPath processId nonce update index "tmp",
      generatedPath processId nonce update index "bak"⟩ :: slots processId nonce (index + 1) rest

/-- No two names of the slots are the same. -/
structure Separate (all : List Slot) : Prop where
  target : (all.map fun s => s.update.path).Nodup
  temporary : (all.map Slot.temporary).Nodup
  backup : (all.map Slot.backup).Nodup
  target_temporary : ∀ s ∈ all, ∀ t ∈ all, s.update.path ≠ t.temporary
  target_backup : ∀ s ∈ all, ∀ t ∈ all, s.update.path ≠ t.backup
  temporary_backup : ∀ s ∈ all, ∀ t ∈ all, s.temporary ≠ t.backup

variable {env : Environment} {fault : Option Fault} {updates : List FileUpdate} {processId nonce : Nat}
  {disk d : Disk Path String} {all before rest : List Slot} {slot : Slot}

/-! ## Generated names -/

theorem dash_notMem_repr (n : Nat) : '-' ∉ (toString n).toList := by
  intro h
  have hlist : (toString n).toList = Nat.toDigits 10 n := Nat.toList_repr
  have hdigit := Nat.isDigit_of_mem_toDigits (by omega) (by omega) (hlist ▸ h)
  exact absurd hdigit (by decide)

variable (processId nonce) in
theorem toList_generatedName (fileName : String) (index : Nat) (extension : String) :
    ∃ front, (s!".{fileName}.module-roots-{processId}-{nonce}-{index}.{extension}").toList
      = front ++ '-' :: ((toString index).toList ++ '.' :: extension.toList) := by
  refine ⟨(s!".{fileName}.module-roots-{processId}-{nonce}").toList, ?_⟩
  simp [toString]

theorem after_last_dash {front front' back back' : List Char} (hback : '-' ∉ back) (hback' : '-' ∉ back')
    (h : front ++ '-' :: back = front' ++ '-' :: back') : back = back' := by
  rcases List.append_eq_append_iff.1 h with ⟨more, -, hmore⟩ | ⟨more, -, hmore⟩
  · cases more with
    | nil => exact (List.cons.inj hmore).2
    | cons c more =>
      exact absurd ((List.cons.inj hmore).2 ▸ List.mem_append_right _ (List.mem_cons_self ..)) hback
  · cases more with
    | nil => exact (List.cons.inj hmore).2.symm
    | cons c more =>
      exact absurd ((List.cons.inj hmore).2 ▸ List.mem_append_right _ (List.mem_cons_self ..)) hback'

theorem generatedPath_inj {u v : FileUpdate} {i j : Nat} {ext ext' : String}
    (hext : '-' ∉ ext.toList) (hext' : '-' ∉ ext'.toList)
    (h : generatedPath processId nonce u i ext = generatedPath processId nonce v j ext') :
    (toString i).toList ++ '.' :: ext.toList = (toString j).toList ++ '.' :: ext'.toList := by
  have hname := congrArg Path.fileName h
  simp only [generatedPath, Path.withFileName, FileName.text.injEq] at hname
  obtain ⟨front, hfront⟩ := toList_generatedName processId nonce
    (u.path.fileName.toStr.getD "source") i ext
  obtain ⟨front', hfront'⟩ := toList_generatedName processId nonce
    (v.path.fileName.toStr.getD "source") j ext'
  rw [hname, hfront'] at hfront
  have hdash (n : Nat) (ext : List Char) : '-' ∉ ext → '-' ∉ (toString n).toList ++ '.' :: ext := by
    intro hext hmem
    rcases List.mem_append.1 hmem with hmem | hmem
    · exact dash_notMem_repr n hmem
    · exact hext ((List.mem_cons.1 hmem).resolve_left (by decide))
  exact (after_last_dash (hdash j _ hext') (hdash i _ hext) hfront).symm

theorem index_eq_of_generatedPath {u v : FileUpdate} {i j : Nat} {ext : String} (hext : '-' ∉ ext.toList)
    (h : generatedPath processId nonce u i ext = generatedPath processId nonce v j ext) : i = j := by
  have hdigits := List.append_cancel_right (generatedPath_inj hext hext h)
  exact Nat.repr_inj.1 (String.toList_inj.1 hdigits)

theorem tmp_ne_bak (u v : FileUpdate) (i j : Nat) :
    generatedPath processId nonce u i "tmp" ≠ generatedPath processId nonce v j "bak" := by
  intro h
  have hlast := congrArg List.getLast? (generatedPath_inj (by decide) (by decide) h)
  simp at hlast

variable (updates processId nonce) in
theorem getElem?_slots (index k : Nat) : (slots processId nonce index updates)[k]? =
    updates[k]?.map fun update => ⟨update, generatedPath processId nonce update (index + k) "tmp",
      generatedPath processId nonce update (index + k) "bak"⟩ := by
  induction updates generalizing index k with
  | nil => rfl
  | cons update rest ih =>
    cases k with
    | zero => rfl
    | succ k =>
      rw [slots, List.getElem?_cons_succ, List.getElem?_cons_succ, ih, Nat.add_right_comm, Nat.add_assoc]

theorem mem_slots {index : Nat} (h : slot ∈ slots processId nonce index updates) :
    ∃ k, updates[k]? = some slot.update ∧
      slot.temporary = generatedPath processId nonce slot.update (index + k) "tmp" ∧
      slot.backup = generatedPath processId nonce slot.update (index + k) "bak" := by
  obtain ⟨k, hk⟩ := List.mem_iff_getElem?.1 h
  rw [getElem?_slots, Option.map_eq_some_iff] at hk
  obtain ⟨update, hupdate, rfl⟩ := hk
  exact ⟨k, hupdate, rfl, rfl⟩

variable (updates processId nonce) in
theorem map_update_slots (index : Nat) : (slots processId nonce index updates).map Slot.update = updates := by
  induction updates generalizing index with
  | nil => rfl
  | cons update rest ih => rw [slots, List.map_cons, ih]

theorem nodup_slots (index : Nat) : ((slots processId nonce index updates).map Slot.temporary).Nodup ∧
    ((slots processId nonce index updates).map Slot.backup).Nodup := by
  induction updates generalizing index with
  | nil => exact ⟨List.nodup_nil, List.nodup_nil⟩
  | cons update rest ih =>
    obtain ⟨htemporary, hbackup⟩ := ih (index + 1)
    constructor
    · refine List.nodup_cons.2 ⟨fun hmem => ?_, htemporary⟩
      obtain ⟨slot, hslot, heq⟩ := List.mem_map.1 hmem
      obtain ⟨k, -, hname, -⟩ := mem_slots hslot
      have := index_eq_of_generatedPath (by decide) (hname.symm.trans heq)
      omega
    · refine List.nodup_cons.2 ⟨fun hmem => ?_, hbackup⟩
      obtain ⟨slot, hslot, heq⟩ := List.mem_map.1 hmem
      obtain ⟨k, -, -, hname⟩ := mem_slots hslot
      have := index_eq_of_generatedPath (by decide) (hname.symm.trans heq)
      omega

/-- No file has a generated name. -/
def Fresh (processId nonce : Nat) (updates : List FileUpdate) (disk : Disk Path String) : Prop :=
  ∀ (i : Nat) (update : FileUpdate), updates[i]? = some update → ∀ extension ∈ ["tmp", "bak"],
    disk (generatedPath processId nonce update i extension) = none

/-- The files that are replaced are different files, which exist. -/
structure Replaceable (updates : List FileUpdate) (disk : Disk Path String) : Prop where
  distinct : (updates.map FileUpdate.path).Nodup
  exist : ∀ update ∈ updates, ∃ content, disk update.path = some content

theorem fresh_slots (h : Fresh processId nonce updates disk) :
    ∀ s ∈ slots processId nonce 0 updates, disk s.temporary = none ∧ disk s.backup = none := by
  intro s hs
  obtain ⟨i, hget, htemporary, hbackup⟩ := mem_slots hs
  rw [Nat.zero_add] at htemporary hbackup
  exact ⟨htemporary ▸ h i _ hget _ (by simp), hbackup ▸ h i _ hget _ (by simp)⟩

variable (processId nonce) in
theorem exist_slots (h : Replaceable updates disk) :
    ∀ s ∈ slots processId nonce 0 updates, ∃ content, disk s.update.path = some content :=
  fun s hs => h.exist s.update (map_update_slots updates _ _ 0 ▸ List.mem_map_of_mem hs)

theorem separate_slots (hfresh : Fresh processId nonce updates disk) (h : Replaceable updates disk) :
    Separate (slots processId nonce 0 updates) := by
  have hne : ∀ {p q : Path} {content : String}, disk p = some content → disk q = none → p ≠ q := by
    rintro p q content hp hq rfl
    cases hp.symm.trans hq
  refine ⟨?_, (nodup_slots 0).1, (nodup_slots 0).2, ?_, ?_, ?_⟩
  · have hmap : (slots processId nonce 0 updates).map (fun s => s.update.path)
        = updates.map FileUpdate.path := by
      conv_rhs => rw [← map_update_slots updates processId nonce 0]
      rw [List.map_map]
      rfl
    rw [hmap]
    exact h.distinct
  · intro s hs t ht
    obtain ⟨content, hcontent⟩ := exist_slots _ _ h s hs
    exact hne hcontent (fresh_slots hfresh t ht).1
  · intro s hs t ht
    obtain ⟨content, hcontent⟩ := exist_slots _ _ h s hs
    exact hne hcontent (fresh_slots hfresh t ht).2
  · intro s hs t ht
    obtain ⟨i, -, htemporary, -⟩ := mem_slots hs
    obtain ⟨j, -, -, hbackup⟩ := mem_slots ht
    rw [htemporary, hbackup]
    exact tmp_ne_bak _ _ _ _

/-! ## The new contents -/

/-- The disk with the new contents of these slots. -/
def written (all : List Slot) (disk : Disk Path String) : Disk Path String :=
  all.foldl (fun disk s => disk.write s.temporary s.update.content) disk

theorem written_of_notMem {p : Path} (h : p ∉ all.map Slot.temporary) : written all disk p = disk p := by
  induction all generalizing disk with
  | nil => rfl
  | cons slot all ih =>
    obtain ⟨hslot, hall⟩ := not_or.1 (mt List.mem_cons.2 h)
    show written all (disk.write slot.temporary slot.update.content) p = _
    rw [ih hall, write_apply, if_neg hslot]

theorem written_temporary (hall : (all.map Slot.temporary).Nodup) (hslot : slot ∈ all) :
    written all disk slot.temporary = some slot.update.content := by
  induction all generalizing disk with
  | nil => cases hslot
  | cons first all ih =>
    obtain ⟨hfirst, hnodup⟩ := List.nodup_cons.1 hall
    show written all (disk.write first.temporary first.update.content) _ = _
    rcases List.mem_cons.1 hslot with rfl | hslot
    · rw [written_of_notMem hfirst, write_apply, if_pos rfl]
    · exact ih hnodup hslot

/-- The write that fails is not among the next ones. -/
def WritesWell (fault : Option Fault) (index len : Nat) : Prop :=
  ∀ i err left, fault = some (.write i err left) → i < index ∨ index + len ≤ i

variable (env nonce disk) in
theorem prepare_ok {index : Nat} (temporary backups : List Path)
    (hfault : WritesWell fault index updates.length) :
    prepare env fault nonce index updates temporary backups disk =
      (.ok (temporary ++ (slots env.processId nonce index updates).map Slot.temporary,
        backups ++ (slots env.processId nonce index updates).map Slot.backup),
        written (slots env.processId nonce index updates) disk) := by
  induction updates generalizing index temporary backups disk with
  | nil => simp [prepare, slots, written]
  | cons update rest ih =>
    have hwrite : ∀ path, writeFile fault index path update.content disk
        = (.ok (), disk.write path update.content) := by
      intro path
      unfold writeFile
      split
      · next i err left =>
        have hi := hfault i err left rfl
        rw [List.length_cons] at hi
        exact if_neg (by omega)
      · rfl
    have hrest : WritesWell fault (index + 1) rest.length := by
      intro i err left h
      have hi := hfault i err left h
      rw [List.length_cons] at hi
      rcases hi with hi | hi
      · exact .inl (by omega)
      · exact .inr (by omega)
    rw [prepare]
    simp only [hwrite]
    rw [ih _ _ _ hrest, slots]
    simp [written]

variable (env disk) in
theorem prepare_error (index : Nat) {i : Nat} (err : String) (left : Option String)
    (temporary backups : List Path) (hindex : index ≤ i) (hi : updates[i - index]? = some slot.update)
    (htemporary : slot.temporary = generatedPath env.processId nonce slot.update i "tmp") :
    ∃ message, prepare env (some (.write i err left)) nonce index updates temporary backups disk =
      (.error message,
        Disk.removeAll (temporary ++ ((slots env.processId nonce index updates).take (i - index)).map Slot.temporary)
        (match left with
          | none => written ((slots env.processId nonce index updates).take (i - index)) disk
          | some part => Disk.write slot.temporary part
              (written ((slots env.processId nonce index updates).take (i - index)) disk))) := by
  induction updates generalizing index temporary backups disk with
  | nil => cases hi
  | cons update rest ih =>
    rw [prepare]
    rcases Nat.eq_or_lt_of_le hindex with rfl | hlt
    · rw [Nat.sub_self] at hi ⊢
      obtain rfl : update = slot.update := by simpa using hi
      refine ⟨s!"failed to prepare module-root migration output {env.display slot.temporary}: {err}", ?_⟩
      simp only [writeFile, if_true, ← htemporary, List.take_zero, List.map_nil, List.append_nil, written,
        List.foldl_nil] <;> rfl
    obtain ⟨k, hk⟩ : ∃ k, i - index = k + 1 := ⟨i - index - 1, by omega⟩
    have hk' : i - (index + 1) = k := by omega
    rw [hk] at hi ⊢
    obtain ⟨message, hmessage⟩ := ih
      (disk.write (generatedPath env.processId nonce update index "tmp") update.content) (index + 1)
      (temporary ++ [generatedPath env.processId nonce update index "tmp"])
      (backups ++ [generatedPath env.processId nonce update index "bak"])
      (by omega) (by rw [hk']; simpa using hi)
    refine ⟨message, ?_⟩
    rw [hk'] at hmessage
    simp only [writeFile, if_neg (show i ≠ index by omega)]
    rw [hmessage, slots]
    simp [written]

/-! ## Rollback -/

theorem Separate.tail (h : Separate (slot :: all)) : Separate all :=
  ⟨(List.nodup_cons.1 h.target).2, (List.nodup_cons.1 h.temporary).2, (List.nodup_cons.1 h.backup).2,
    fun s hs t ht => h.target_temporary s (List.mem_cons_of_mem _ hs) t (List.mem_cons_of_mem _ ht),
    fun s hs t ht => h.target_backup s (List.mem_cons_of_mem _ hs) t (List.mem_cons_of_mem _ ht),
    fun s hs t ht => h.temporary_backup s (List.mem_cons_of_mem _ hs) t (List.mem_cons_of_mem _ ht)⟩

theorem Separate.mono {others : List Slot} (h : Separate all) (hsub : others.Subperm all) :
    Separate others := by
  have hmem := hsub.subset
  obtain ⟨l, hperm, hsub⟩ := hsub
  have hnodup (f : Slot → Path) (hf : (all.map f).Nodup) : (others.map f).Nodup :=
    (hperm.map f).nodup_iff.1 (hf.sublist (hsub.map f))
  exact ⟨hnodup _ h.target, hnodup _ h.temporary, hnodup _ h.backup,
    fun s hs t ht => h.target_temporary s (hmem hs) t (hmem ht),
    fun s hs t ht => h.target_backup s (hmem hs) t (hmem ht),
    fun s hs t ht => h.temporary_backup s (hmem hs) t (hmem ht)⟩

theorem Separate.ne_of_mem_tail (h : Separate (slot :: all)) {s : Slot} (hs : s ∈ all) :
    s.update.path ≠ slot.update.path ∧ s.backup ≠ slot.backup ∧ s.temporary ≠ slot.temporary := by
  refine ⟨fun heq => ?_, fun heq => ?_, fun heq => ?_⟩
  · exact (List.nodup_cons.1 h.target).1 (List.mem_map.2 ⟨s, hs, heq⟩)
  · exact (List.nodup_cons.1 h.backup).1 (List.mem_map.2 ⟨s, hs, heq⟩)
  · exact (List.nodup_cons.1 h.temporary).1 (List.mem_map.2 ⟨s, hs, heq⟩)

variable (env) in
/-- Where every file and its backup are there, the rollback moves the backups back. -/
theorem rollbackRounds_ok (hall : Separate all)
    (hd : ∀ s ∈ all, (∃ content, d s.update.path = some content) ∧ ∃ content, d s.backup = some content) :
    ∃ d', rollbackRounds env (all.map fun s => (s.update, s.backup)) d = ([], d') ∧
      (∀ s ∈ all, d' s.update.path = d s.backup ∧ d' s.backup = none) ∧
      ∀ p, (∀ s ∈ all, p ≠ s.update.path ∧ p ≠ s.backup) → d' p = d p := by
  induction all generalizing d with
  | nil => exact ⟨d, rfl, by simp, fun _ _ => rfl⟩
  | cons slot all ih =>
    obtain ⟨⟨content, hcontent⟩, old, hold⟩ := hd slot (List.mem_cons_self ..)
    have hne := hall.target_backup slot (List.mem_cons_self ..) slot (List.mem_cons_self ..)
    have hremoved : Function.update d slot.update.path none slot.backup = some old := by
      rw [Function.update_of_ne hne.symm, hold]
    obtain ⟨d₁, hd₁⟩ : ∃ d₁, d₁ = Function.update (Function.update (Function.update d slot.update.path none)
      slot.backup none) slot.update.path (some old) := ⟨_, rfl⟩
    have hround : rollbackUpdate env slot.update slot.backup d = ([], d₁) := by
      rw [rollbackUpdate, remove_of_some hcontent]
      dsimp only
      rw [rename_of_some hremoved, hd₁]
    have hother (p) (hp : p ≠ slot.update.path) (hp' : p ≠ slot.backup) : d₁ p = d p := by
      rw [hd₁, Function.update_of_ne hp, Function.update_of_ne hp', Function.update_of_ne hp]
    have htarget : d₁ slot.update.path = d slot.backup := by rw [hd₁, Function.update_self, hold]
    have hbackup : d₁ slot.backup = none := by
      rw [hd₁, Function.update_of_ne hne.symm, Function.update_self]
    have hkept (s) (hs : s ∈ all) : d₁ s.update.path = d s.update.path ∧ d₁ s.backup = d s.backup := by
      have hs' := hall.ne_of_mem_tail hs
      have hmem := List.mem_cons_of_mem slot hs
      have hself := List.mem_cons_self (a := slot) (l := all)
      exact ⟨hother _ hs'.1 (hall.target_backup s hmem slot hself),
        hother _ (hall.target_backup slot hself s hmem).symm hs'.2.1⟩
    obtain ⟨d', hrounds, hall', hrest⟩ := ih (d := d₁) hall.tail fun s hs => by
      rw [(hkept s hs).1, (hkept s hs).2]
      exact hd s (List.mem_cons_of_mem _ hs)
    refine ⟨d', ?_, ?_, ?_⟩
    · rw [List.map_cons, rollbackRounds]
      simp [hround, hrounds]
    · intro s hs
      rcases List.mem_cons.1 hs with rfl | hs
      · have hfirst : ∀ t ∈ all, s.update.path ≠ t.update.path ∧ s.update.path ≠ t.backup ∧
            s.backup ≠ t.update.path ∧ s.backup ≠ t.backup := by
          intro t ht
          have ht' := hall.ne_of_mem_tail ht
          have hmem := List.mem_cons_of_mem s ht
          have hself := List.mem_cons_self (a := s) (l := all)
          exact ⟨ht'.1.symm, hall.target_backup s hself t hmem, (hall.target_backup t hmem s hself).symm,
            ht'.2.1.symm⟩
        rw [hrest _ fun t ht => ⟨(hfirst t ht).1, (hfirst t ht).2.1⟩,
          hrest _ fun t ht => ⟨(hfirst t ht).2.2.1, (hfirst t ht).2.2.2⟩]
        exact ⟨htarget, hbackup⟩
      · rw [← (hkept s hs).2]
        exact hall' s hs
    · intro p hp
      obtain ⟨htarget, hbackup⟩ := hp slot (List.mem_cons_self ..)
      rw [hrest p fun s hs => hp s (List.mem_cons_of_mem _ hs), hother p htarget hbackup]

/-! ## The files -/

/-- The disk while the files are replaced: some are done, and some are to come. -/
structure Swapped (disk : Disk Path String) (before rest : List Slot) (d : Disk Path String) : Prop where
  done_ : ∀ s ∈ before,
    d s.update.path = some s.update.content ∧ d s.backup = disk s.update.path ∧ d s.temporary = none
  rest_ : ∀ s ∈ rest,
    d s.update.path = disk s.update.path ∧ d s.backup = none ∧ d s.temporary = some s.update.content
  other : ∀ p, (∀ s ∈ before ++ rest, p ≠ s.update.path ∧ p ≠ s.backup ∧ p ≠ s.temporary) → d p = disk p

theorem swapped_written (hall : Separate all) (hfresh : ∀ s ∈ all, disk s.temporary = none ∧ disk s.backup = none) :
    Swapped disk [] all (written all disk) := by
  refine ⟨by simp, fun s hs => ⟨?_, ?_, written_temporary hall.temporary hs⟩, fun p hp => ?_⟩
  · refine written_of_notMem fun hmem => ?_
    obtain ⟨t, ht, heq⟩ := List.mem_map.1 hmem
    exact hall.target_temporary s hs t ht heq.symm
  · rw [written_of_notMem, (hfresh s hs).2]
    intro hmem
    obtain ⟨t, ht, heq⟩ := List.mem_map.1 hmem
    exact hall.temporary_backup t ht s hs heq
  · refine written_of_notMem fun hmem => ?_
    obtain ⟨t, ht, heq⟩ := List.mem_map.1 hmem
    exact (hp t ht).2.2 heq.symm

variable (env) in
theorem rollbackUpdates_ok (hall : Separate (before ++ rest)) (h : Swapped disk before rest d)
    (hexist : ∀ s ∈ before ++ rest, ∃ content, disk s.update.path = some content)
    (hfresh : ∀ s ∈ before ++ rest, disk s.temporary = none ∧ disk s.backup = none) :
    ∃ d', rollbackUpdates env (before.map Slot.update) (before.map Slot.backup) d = (.ok (), d') ∧
      Swapped disk [] rest d' := by
  have hbefore : Separate before.reverse :=
    hall.mono (before.reverse_perm.subperm.trans (List.sublist_append_left ..).subperm)
  obtain ⟨d', hrounds, hdone, hother⟩ := rollbackRounds_ok env hbefore (d := d) (by
    intro s hs
    have hs' : s ∈ before := List.mem_reverse.1 hs
    obtain ⟨htarget, hbackup, -⟩ := h.done_ s hs'
    exact ⟨⟨_, htarget⟩, hbackup ▸ hexist s (List.mem_append_left _ hs')⟩)
  have hzip : ((before.map Slot.update).zip (before.map Slot.backup)).reverse
      = before.reverse.map fun s => (s.update, s.backup) := by
    rw [List.zip_map', List.map_reverse]
  have hrestored : ∀ s ∈ before,
      d' s.update.path = disk s.update.path ∧ d' s.backup = none ∧ d' s.temporary = none := by
    intro s hs
    obtain ⟨htarget, hbackup⟩ := hdone s (List.mem_reverse.2 hs)
    refine ⟨htarget.trans (h.done_ s hs).2.1, hbackup, ?_⟩
    rw [hother, (h.done_ s hs).2.2]
    intro t ht
    have hs' := List.mem_append_left rest hs
    have ht' := List.mem_append_left rest (List.mem_reverse.1 ht)
    exact ⟨(hall.target_temporary t ht' s hs').symm, hall.temporary_backup s hs' t ht'⟩
  refine ⟨d', by rw [rollbackUpdates, hzip, hrounds]; rfl, by simp, fun s hs => ?_, fun p hp => ?_⟩
  · -- what is to come is not touched
    have hs' := List.mem_append_right before hs
    have hdisjoint (t) (ht : t ∈ before) : s.update.path ≠ t.update.path ∧ s.backup ≠ t.backup := by
      have htarget := hall.target
      have hbackup := hall.backup
      rw [List.map_append, List.nodup_append] at htarget hbackup
      exact ⟨fun heq => htarget.2.2 _ (List.mem_map_of_mem ht) _ (List.mem_map_of_mem hs) heq.symm,
        fun heq => hbackup.2.2 _ (List.mem_map_of_mem ht) _ (List.mem_map_of_mem hs) heq.symm⟩
    have hkept : ∀ t ∈ before.reverse, (s.update.path ≠ t.update.path ∧ s.update.path ≠ t.backup) ∧
        (s.backup ≠ t.update.path ∧ s.backup ≠ t.backup) ∧
          s.temporary ≠ t.update.path ∧ s.temporary ≠ t.backup := by
      intro t ht
      have ht := List.mem_reverse.1 ht
      have ht' := List.mem_append_left rest ht
      exact ⟨⟨(hdisjoint t ht).1, hall.target_backup s hs' t ht'⟩,
        ⟨(hall.target_backup t ht' s hs').symm, (hdisjoint t ht).2⟩,
        (hall.target_temporary t ht' s hs').symm, hall.temporary_backup s hs' t ht'⟩
    rw [hother _ fun t ht => (hkept t ht).1, hother _ fun t ht => (hkept t ht).2.1,
      hother _ fun t ht => (hkept t ht).2.2]
    exact h.rest_ s hs
  · by_cases hmem : ∃ s ∈ before, p = s.update.path ∨ p = s.backup ∨ p = s.temporary
    · obtain ⟨s, hs, hp⟩ := hmem
      obtain ⟨htarget, hbackup, htemporary⟩ := hrestored s hs
      obtain ⟨hfresh₁, hfresh₂⟩ := hfresh s (List.mem_append_left _ hs)
      rcases hp with rfl | rfl | rfl
      · exact htarget
      · rw [hbackup, hfresh₂]
      · rw [htemporary, hfresh₁]
    · have hout (s) (hs : s ∈ before) : p ≠ s.update.path ∧ p ≠ s.backup ∧ p ≠ s.temporary :=
        ⟨fun heq => hmem ⟨s, hs, .inl heq⟩, fun heq => hmem ⟨s, hs, .inr (.inl heq)⟩,
          fun heq => hmem ⟨s, hs, .inr (.inr heq)⟩⟩
      rw [hother p fun s hs => ⟨(hout s (List.mem_reverse.1 hs)).1, (hout s (List.mem_reverse.1 hs)).2.1⟩]
      refine h.other p fun s hs => ?_
      rcases List.mem_append.1 hs with hs | hs
      · exact hout s hs
      · exact hp s hs

theorem removeAll_swapped (h : Swapped disk [] rest d)
    (hfresh : ∀ s ∈ rest, disk s.temporary = none ∧ disk s.backup = none) :
    d.removeAll (rest.map Slot.temporary) = disk := by
  funext p
  rw [removeAll_apply]
  split
  · next hmem =>
    obtain ⟨s, hs, rfl⟩ := List.mem_map.1 hmem
    exact (hfresh s hs).1.symm
  next hmem =>
  by_cases hp : ∃ s ∈ rest, p = s.update.path ∨ p = s.backup
  · obtain ⟨s, hs, rfl | rfl⟩ := hp
    · exact (h.rest_ s hs).1
    · rw [(h.rest_ s hs).2.1, (hfresh s hs).2]
  · exact h.other p fun s hs => ⟨fun heq => hp ⟨s, hs, .inl heq⟩, fun heq => hp ⟨s, hs, .inr heq⟩,
      fun heq => hmem (List.mem_map.2 ⟨s, hs, heq.symm⟩)⟩

theorem Swapped.step (hall : Separate (before ++ slot :: rest)) (h : Swapped disk before (slot :: rest) d)
    {old : String} (hold : disk slot.update.path = some old) :
    ∃ d₁ d₂, d.rename slot.update.path slot.backup = some d₁ ∧
      d₁.rename slot.backup slot.update.path = some d ∧
      d₁.rename slot.temporary slot.update.path = some d₂ ∧ Swapped disk (before ++ [slot]) rest d₂ := by
  have hslot := List.mem_append_right before (List.mem_cons_self (a := slot) (l := rest))
  have htarget_temporary := hall.target_temporary slot hslot slot hslot
  have htarget_backup := hall.target_backup slot hslot slot hslot
  have htemporary_backup := hall.temporary_backup slot hslot slot hslot
  have hall' : Separate (slot :: (before ++ rest)) := hall.mono List.perm_middle.symm.subperm
  obtain ⟨htarget, hbackup, htemporary⟩ := h.rest_ slot (List.mem_cons_self ..)
  rw [hold] at htarget
  obtain ⟨d₁, hd₁⟩ : ∃ d₁, d₁ = Function.update (Function.update d slot.update.path none) slot.backup
    (some old) := ⟨_, rfl⟩
  obtain ⟨d₂, hd₂⟩ : ∃ d₂, d₂ = Function.update (Function.update d₁ slot.temporary none) slot.update.path
    (some slot.update.content) := ⟨_, rfl⟩
  have hother₁ (p) (hp : p ≠ slot.update.path) (hp' : p ≠ slot.backup) : d₁ p = d p := by
    rw [hd₁, Function.update_of_ne hp', Function.update_of_ne hp]
  have hbackup₁ : d₁ slot.backup = some old := by rw [hd₁, Function.update_self]
  have htemporary₁ : d₁ slot.temporary = some slot.update.content := by
    rw [hother₁ _ htarget_temporary.symm htemporary_backup, htemporary]
  have hother₂ (p) : p ≠ slot.update.path → p ≠ slot.backup → p ≠ slot.temporary → d₂ p = d p := by
    intro hp hp' hp''
    rw [hd₂, Function.update_of_ne hp, Function.update_of_ne hp'', hother₁ p hp hp']
  have hkept : ∀ s ∈ before ++ rest, d₂ s.update.path = d s.update.path ∧ d₂ s.backup = d s.backup ∧
      d₂ s.temporary = d s.temporary := by
    intro s hs
    obtain ⟨h₁, h₂, h₃⟩ := hall'.ne_of_mem_tail hs
    have hs' := List.mem_cons_of_mem slot hs
    have hself := List.mem_cons_self (a := slot) (l := before ++ rest)
    exact ⟨hother₂ _ h₁ (hall'.target_backup s hs' slot hself) (hall'.target_temporary s hs' slot hself),
      hother₂ _ (hall'.target_backup slot hself s hs').symm h₂ (hall'.temporary_backup slot hself s hs').symm,
      hother₂ _ (hall'.target_temporary slot hself s hs').symm (hall'.temporary_backup s hs' slot hself) h₃⟩
  refine ⟨d₁, d₂, by rw [rename_of_some htarget, hd₁], ?_, by rw [rename_of_some htemporary₁, hd₂], ?_, ?_, ?_⟩
  · -- the rename back
    rw [rename_of_some hbackup₁]
    congr 1
    funext p
    by_cases hp : p = slot.update.path
    · rw [hp, Function.update_self, htarget]
    · rw [Function.update_of_ne hp]
      by_cases hp' : p = slot.backup
      · rw [hp', Function.update_self, hbackup]
      · rw [Function.update_of_ne hp', hother₁ p hp hp']
  · intro s hs
    rcases List.mem_append.1 hs with hs | hs
    · obtain ⟨h₁, h₂, h₃⟩ := hkept s (List.mem_append_left _ hs)
      rw [h₁, h₂, h₃]
      exact h.done_ s hs
    · obtain rfl := List.mem_singleton.1 hs
      refine ⟨by rw [hd₂, Function.update_self], ?_, ?_⟩
      · rw [hd₂, Function.update_of_ne htarget_backup.symm, Function.update_of_ne htemporary_backup.symm,
          hbackup₁, hold]
      · rw [hd₂, Function.update_of_ne htarget_temporary.symm, Function.update_self]
  · intro s hs
    obtain ⟨h₁, h₂, h₃⟩ := hkept s (List.mem_append_right _ hs)
    rw [h₁, h₂, h₃]
    exact h.rest_ s (List.mem_cons_of_mem _ hs)
  · intro p hp
    obtain ⟨h₁, h₂, h₃⟩ := hp slot (by simp)
    rw [hother₂ p h₁ h₂ h₃]
    exact h.other p fun s hs => hp s (by simpa using hs)

/-! ## The loop -/

/-- What the loop is given for these slots. -/
def triples (all : List Slot) : List ((FileUpdate × Path) × Path) :=
  all.map fun s => ((s.update, s.temporary), s.backup)

theorem take_map_append {β : Type} (f : Slot → β) : ((before ++ rest).map f).take before.length = before.map f := by
  rw [List.map_append, List.take_left' (List.length_map _)]

theorem drop_map_append {β : Type} (f : Slot → β) : ((before ++ rest).map f).drop before.length = rest.map f := by
  rw [List.map_append, List.drop_left' (List.length_map _)]

/-- The operations of the loop that do not fail. -/
def SwapsWell (fault : Option Fault) (index len : Nat) : Prop :=
  (∀ i err, fault = some (.backup i err) → i < index ∨ index + len ≤ i) ∧
    ∀ i err, fault = some (.swap i err) → i < index ∨ index + len ≤ i

theorem SwapsWell.backupFault_eq {index len : Nat} (h : SwapsWell fault index (len + 1)) :
    backupFault fault index = none := by
  unfold backupFault
  split
  · next i err =>
    have hi := h.1 i err rfl
    exact if_neg (by omega)
  · rfl

theorem SwapsWell.swapFault_eq {index len : Nat} (h : SwapsWell fault index (len + 1)) :
    swapFault fault index = none := by
  unfold swapFault
  split
  · next i err =>
    have hi := h.2 i err rfl
    exact if_neg (by omega)
  · rfl

theorem SwapsWell.tail {index len : Nat} (h : SwapsWell fault index (len + 1)) :
    SwapsWell fault (index + 1) len := by
  obtain ⟨hbackup, hswap⟩ := h
  constructor
  · intro i err hi
    have := hbackup i err hi
    omega
  · intro i err hi
    have := hswap i err hi
    omega

/-- The loop over all the slots, from where it has come to. -/
def loopFrom (env : Environment) (fault : Option Fault) (all before rest : List Slot)
    (d : Disk Path String) : Except String Unit × Disk Path String :=
  replaceLoop env fault (all.map Slot.update) (all.map Slot.temporary) (all.map Slot.backup) before.length
    (triples rest) d

variable (env fault before rest) in
theorem loopFrom_append (more : List Slot) (hall : Separate all) (hsplit : all = before ++ (more ++ rest))
    (hfault : SwapsWell fault before.length more.length) (h : Swapped disk before (more ++ rest) d)
    (hexist : ∀ s ∈ all, ∃ content, disk s.update.path = some content) :
    ∃ d', loopFrom env fault all before (more ++ rest) d = loopFrom env fault all (before ++ more) rest d' ∧
      Swapped disk (before ++ more) rest d' := by
  induction more generalizing before d with
  | nil =>
    rw [List.append_nil]
    exact ⟨d, rfl, h⟩
  | cons slot more ih =>
    rw [List.length_cons] at hfault
    obtain ⟨old, hold⟩ := hexist slot (by simp [hsplit])
    obtain ⟨d₁, d₂, hbackup, -, hswap, hswapped⟩ := h.step (hsplit ▸ hall) hold
    have hrest := hfault.tail
    rw [← List.length_singleton (a := slot), ← List.length_append] at hrest
    obtain ⟨d', hloop, hend⟩ := ih (before ++ [slot]) (by simpa using hsplit) hrest hswapped
    rw [List.append_assoc, List.singleton_append] at hloop hend
    refine ⟨d', ?_, hend⟩
    rw [← hloop, loopFrom, loopFrom, List.cons_append, triples, List.map_cons, replaceLoop,
      hfault.backupFault_eq, hfault.swapFault_eq, List.length_append, List.length_singleton]
    simp only [renameFile, hbackup, hswap]
    rfl

variable (env) in
theorem loopFrom_backup (err : String) (hall : Separate all) (hsplit : all = before ++ slot :: rest)
    (h : Swapped disk before (slot :: rest) d)
    (hexist : ∀ s ∈ all, ∃ content, disk s.update.path = some content)
    (hfresh : ∀ s ∈ all, disk s.temporary = none ∧ disk s.backup = none) :
    ∃ message, loopFrom env (some (.backup before.length err)) all before (slot :: rest) d
      = (.error message, disk) := by
  subst hsplit
  obtain ⟨d', hrollback, hswapped⟩ := rollbackUpdates_ok env hall h hexist hfresh
  have hremoved := removeAll_swapped hswapped fun s hs => hfresh s (List.mem_append_right _ hs)
  rw [loopFrom, triples, List.map_cons, replaceLoop, backupFault, if_pos rfl, take_map_append,
    take_map_append, drop_map_append]
  simp only [renameFile, hrollback, hremoved]
  exact ⟨_, rfl⟩

variable (env) in
/-- A rename onto the place of a file that fails is undone, but the new content is left. -/
theorem loopFrom_swap (err : String) (hall : Separate all) (hsplit : all = before ++ slot :: rest)
    (h : Swapped disk before (slot :: rest) d)
    (hexist : ∀ s ∈ all, ∃ content, disk s.update.path = some content)
    (hfresh : ∀ s ∈ all, disk s.temporary = none ∧ disk s.backup = none) :
    ∃ message d', loopFrom env (some (.swap before.length err)) all before (slot :: rest) d
      = (.error message, d') ∧ d' slot.temporary = some slot.update.content := by
  subst hsplit
  obtain ⟨old, hold⟩ := hexist slot (by simp)
  obtain ⟨d₁, d₂, hbackup, hback, -, -⟩ := h.step hall hold
  obtain ⟨d', hrollback, hswapped⟩ := rollbackUpdates_ok env hall h hexist hfresh
  have hdrop : ((before ++ slot :: rest).map Slot.temporary).drop (before.length + 1)
      = rest.map Slot.temporary := by
    rw [← List.drop_drop, drop_map_append]
    rfl
  have hnobackup : backupFault (some (.swap before.length err)) before.length = none := rfl
  have hfails : swapFault (some (.swap before.length err)) before.length = some err := if_pos rfl
  rw [loopFrom, triples, List.map_cons, replaceLoop, hnobackup, hfails, take_map_append, take_map_append,
    hdrop]
  simp only [renameFile, hbackup, hback, hrollback]
  refine ⟨_, _, rfl, ?_⟩
  rw [removeAll_apply, if_neg, (hswapped.rest_ slot (List.mem_cons_self ..)).2.2]
  have htemporary := hall.temporary
  rw [List.map_append, List.nodup_append, List.map_cons, List.nodup_cons] at htemporary
  exact htemporary.2.1.1

/-! ## The whole function -/

/-- What is promised: after an error the disk is as it was, so that every file has its content and none
is left behind; without one every file has its new content, and nothing else is changed. -/
def AllOrNothing (updates : List FileUpdate) (disk : Disk Path String)
    (outcome : Except String Unit × Disk Path String) : Prop :=
  match outcome with
  | (.error _, d) => d = disk
  | (.ok (), d) => (∀ update ∈ updates, d update.path = some update.content) ∧
    ∀ p, (∀ update ∈ updates, p ≠ update.path) → d p = disk p

/-- The errors that are not undone, at the updates that there are. -/
def Leaves (len : Nat) : Option Fault → Prop
  | some (.swap i _) => i < len
  | some (.write i _ (some _)) => i < len
  | _ => False

section Whole

variable (hnonce : env.nonce = .ok nonce) (hne : updates ≠ [])
include hnonce hne

variable (disk) in
theorem replaceFilesAtomically_of_writesWell (hfault : WritesWell fault 0 updates.length) :
    replaceFilesAtomically env fault updates disk =
      match loopFrom env fault (slots env.processId nonce 0 updates) []
        (slots env.processId nonce 0 updates) (written (slots env.processId nonce 0 updates) disk) with
      | (.error err, d) => (.error err, d)
      | (.ok (), d) => (.ok (), d.removeAll ((slots env.processId nonce 0 updates).map Slot.backup)) := by
  obtain ⟨all, hall⟩ : ∃ all, all = slots env.processId nonce 0 updates := ⟨_, rfl⟩
  have hupdates : updates = all.map Slot.update := by rw [hall, map_update_slots]
  have hprepare := prepare_ok env nonce disk [] [] hfault
  have htriples : ((all.map Slot.update).zip (all.map Slot.temporary)).zip (all.map Slot.backup)
      = triples all := by
    rw [List.zip_map', List.zip_map']
    rfl
  rw [List.nil_append, List.nil_append, ← hall] at hprepare
  have hloop : replaceLoop env fault updates (all.map Slot.temporary) (all.map Slot.backup) 0
      ((updates.zip (all.map Slot.temporary)).zip (all.map Slot.backup)) (written all disk)
      = loopFrom env fault all [] all (written all disk) := by
    rw [hupdates, htriples]
    rfl
  rw [replaceFilesAtomically, if_neg (by simpa using hne), hnonce, ← hall]
  simp only [hprepare, hloop] <;>
    rcases loopFrom env fault all [] all (written all disk) with ⟨_ | _, d⟩ <;> rfl

end Whole

section Faults

variable (hnonce : env.nonce = .ok nonce) (hfresh : Fresh env.processId nonce updates disk)
  (hupdates : Replaceable updates disk)
include hnonce hfresh hupdates

variable (fault) in
theorem allOrNothing_of_well (hwrites : WritesWell fault 0 updates.length)
    (hswaps : SwapsWell fault 0 updates.length) :
    AllOrNothing updates disk (replaceFilesAtomically env fault updates disk) := by
  by_cases hne : updates = []
  · subst hne
    exact ⟨by simp, fun _ _ => rfl⟩
  obtain ⟨all, hall⟩ : ∃ all, all = slots env.processId nonce 0 updates := ⟨_, rfl⟩
  have hmap : all.map Slot.update = updates := by rw [hall, map_update_slots]
  have hseparate : Separate all := hall ▸ separate_slots hfresh hupdates
  have hnone : ∀ s ∈ all, disk s.temporary = none ∧ disk s.backup = none := hall ▸ fresh_slots hfresh
  have hexist : ∀ s ∈ all, ∃ content, disk s.update.path = some content := hall ▸ exist_slots _ _ hupdates
  have hlength : all.length = updates.length := by rw [← hmap, List.length_map]
  obtain ⟨d, hloop, hd⟩ := loopFrom_append env _ [] [] all
    hseparate (by simp) (hlength ▸ hswaps) (by simpa using swapped_written hseparate hnone) hexist
  rw [List.append_nil, List.nil_append] at hloop
  rw [List.nil_append] at hd
  rw [replaceFilesAtomically_of_writesWell _ hnonce hne hwrites, ← hall, hloop]
  show AllOrNothing updates disk (.ok (), d.removeAll (all.map Slot.backup))
  refine ⟨fun update hupdate => ?_, fun p hp => ?_⟩
  · obtain ⟨s, hs, rfl⟩ := List.mem_map.1 (hmap ▸ hupdate)
    rw [removeAll_apply, if_neg, (hd.done_ s hs).1]
    intro hmem
    obtain ⟨t, ht, heq⟩ := List.mem_map.1 hmem
    exact hseparate.target_backup s hs t ht heq.symm
  rw [removeAll_apply]
  split
  · next hmem =>
    obtain ⟨s, hs, rfl⟩ := List.mem_map.1 hmem
    exact (hnone s hs).2.symm
  next hmem =>
  by_cases htemporary : ∃ s ∈ all, p = s.temporary
  · obtain ⟨s, hs, rfl⟩ := htemporary
    rw [(hd.done_ s hs).2.2, (hnone s hs).1]
  · refine hd.other p fun s hs => ?_
    rw [List.append_nil] at hs
    exact ⟨hp s.update (hmap ▸ List.mem_map_of_mem hs), fun heq => hmem (List.mem_map.2 ⟨s, hs, heq.symm⟩),
      fun heq => htemporary ⟨s, hs, heq⟩⟩

variable (processId nonce) in
omit hnonce hfresh hupdates in
theorem exists_slot {i : Nat} (hi : i < updates.length) : ∃ before slot rest,
    slots processId nonce 0 updates = before ++ slot :: rest ∧ before.length = i ∧
      updates[i]? = some slot.update ∧ slot.temporary = generatedPath processId nonce slot.update i "tmp" := by
  have hget := getElem?_slots updates processId nonce 0 i
  rw [List.getElem?_eq_getElem hi, Option.map_some, Nat.zero_add] at hget
  obtain ⟨hlt, hslot⟩ := List.getElem?_eq_some_iff.1 hget
  refine ⟨(slots processId nonce 0 updates).take i,
    ⟨updates[i], generatedPath processId nonce updates[i] i "tmp",
      generatedPath processId nonce updates[i] i "bak"⟩,
    (slots processId nonce 0 updates).drop (i + 1), ?_, ?_, List.getElem?_eq_getElem hi, rfl⟩
  · rw [← hslot, List.getElem_cons_drop, List.take_append_drop]
  · rw [List.length_take]
    omega

variable (fault) in
theorem replaceFilesAtomically_reaches {i : Nat} (hi : i < updates.length)
    (hwrites : WritesWell fault 0 updates.length) (hswaps : SwapsWell fault 0 i) :
    ∃ before slot rest d, before.length = i ∧ Separate (before ++ slot :: rest) ∧
      Swapped disk before (slot :: rest) d ∧
      (∀ s ∈ before ++ slot :: rest, ∃ content, disk s.update.path = some content) ∧
      (∀ s ∈ before ++ slot :: rest, disk s.temporary = none ∧ disk s.backup = none) ∧
      ∀ message d', loopFrom env fault (before ++ slot :: rest) before (slot :: rest) d = (.error message, d') →
        replaceFilesAtomically env fault updates disk = (.error message, d') := by
  obtain ⟨before, slot, rest, hsplit, rfl, -, -⟩ :=
    exists_slot env.processId nonce hi
  have hne : updates ≠ [] := by
    rintro rfl
    exact absurd hi (Nat.not_lt_zero _)
  have hseparate := separate_slots hfresh hupdates
  have hnone := fresh_slots hfresh
  have hexist := exist_slots env.processId nonce hupdates
  have hswapped := swapped_written hseparate hnone
  have hwhole := replaceFilesAtomically_of_writesWell disk hnonce hne hwrites
  rw [hsplit] at hseparate hnone hexist hswapped hwhole
  obtain ⟨d, hloop, hd⟩ :=
    loopFrom_append env fault [] (slot :: rest) before hseparate rfl hswaps hswapped hexist
  refine ⟨before, slot, rest, d, rfl, hseparate, hd, hexist, hnone, fun message d' hend => ?_⟩
  rw [hwhole, hloop, List.nil_append, hend]

theorem allOrNothing_of_backup {i : Nat} {err : String} (hi : i < updates.length) :
    AllOrNothing updates disk (replaceFilesAtomically env (some (.backup i err)) updates disk) := by
  obtain ⟨before, slot, rest, d, rfl, hseparate, hd, hexist, hnone, hwhole⟩ :=
    replaceFilesAtomically_reaches (some (.backup i err)) hnonce hfresh hupdates hi
      (fun j err' left h => by cases h)
      ⟨fun j err' h => by cases h; exact .inr (by simp), fun j err' h => by cases h⟩
  obtain ⟨message, hmessage⟩ := loopFrom_backup env err hseparate rfl hd hexist hnone
  rw [hwhole _ _ hmessage]
  rfl

theorem not_allOrNothing_of_swap {i : Nat} (err : String) (hi : i < updates.length) :
    ¬ AllOrNothing updates disk (replaceFilesAtomically env (some (.swap i err)) updates disk) := by
  obtain ⟨before, slot, rest, d, rfl, hseparate, hd, hexist, hnone, hwhole⟩ :=
    replaceFilesAtomically_reaches (some (.swap i err)) hnonce hfresh hupdates hi
      (fun j err' left h => by cases h)
      ⟨fun j err' h => (by cases h), fun j err' h => by cases h; exact .inr (by simp)⟩
  obtain ⟨message, d', hmessage, hleft⟩ :=
    loopFrom_swap env err hseparate rfl hd hexist hnone
  rw [hwhole _ _ hmessage]
  rintro (heq : d' = disk)
  rw [heq, (hnone slot (by simp)).1] at hleft
  cases hleft

theorem allOrNothing_of_write {i : Nat} {err : String} {left : Option String} (hi : i < updates.length) :
    AllOrNothing updates disk (replaceFilesAtomically env (some (.write i err left)) updates disk) ↔
      left = none := by
  obtain ⟨before, slot, rest, hsplit, hlength, hget, htemporary⟩ :=
    exists_slot env.processId nonce hi
  have hne : updates ≠ [] := by
    rintro rfl
    exact absurd hi (Nat.not_lt_zero _)
  have hseparate := separate_slots hfresh hupdates
  have hnone := fresh_slots hfresh
  obtain ⟨message, hprepare⟩ := prepare_error env disk 0 err left [] [] (Nat.zero_le i) hget htemporary
  have htake : (slots env.processId nonce 0 updates).take (i - 0) = before := by
    rw [hsplit, Nat.sub_zero, List.take_left' hlength]
  rw [htake, List.nil_append] at hprepare
  have hwhole : replaceFilesAtomically env (some (.write i err left)) updates disk = (.error message,
      Disk.removeAll (before.map Slot.temporary) (match left with
        | none => written before disk
        | some part => Disk.write slot.temporary part (written before disk))) := by
    rw [replaceFilesAtomically, if_neg (by simpa using hne), hnonce]
    simp only [hprepare]
  rw [hsplit] at hseparate hnone
  rw [hwhole]
  show Disk.removeAll _ _ = disk ↔ _
  have hslot : slot.temporary ∉ before.map Slot.temporary := by
    have htemporary := hseparate.temporary
    rw [List.map_append, List.nodup_append] at htemporary
    intro hmem
    exact htemporary.2.2 _ hmem _ (by simp) rfl
  cases left with
  | none =>
    refine iff_of_true ?_ rfl
    funext p
    rw [removeAll_apply]
    split
    · next hmem =>
      obtain ⟨s, hs, rfl⟩ := List.mem_map.1 hmem
      exact (hnone s (List.mem_append_left _ hs)).1.symm
    · next hmem => exact written_of_notMem hmem
  | some part =>
    refine iff_of_false (fun heq => ?_) (by simp)
    have hleft := congrFun heq slot.temporary
    rw [removeAll_apply, if_neg hslot, (hnone slot (by simp)).1] at hleft
    simp [write_apply] at hleft

end Faults

/-- **All or nothing, but for two errors.**  For every list of different files that exist, next to which
no file has a generated name, and every operation that fails or none, the files are replaced or the disk
stays as it is, unless the rename onto the place of a file fails or a write fails that leaves a part. -/
theorem replaceFilesAtomically_allOrNothing_iff (hupdates : Replaceable updates disk)
    (hfresh : ∀ nonce, env.nonce = .ok nonce → Fresh env.processId nonce updates disk) :
    AllOrNothing updates disk (replaceFilesAtomically env fault updates disk) ↔
      ((∃ nonce, env.nonce = .ok nonce) → ¬ Leaves updates.length fault) := by
  cases hnonce : env.nonce with
  | error err =>
    refine iff_of_true ?_ (by simp)
    rw [replaceFilesAtomically]
    split
    · next hempty =>
      obtain rfl : updates = [] := by simpa using hempty
      exact ⟨by simp, fun _ _ => rfl⟩
    · rw [hnonce]
      rfl
  | ok nonce =>
    have hfresh := hfresh nonce hnonce
    have hwell := allOrNothing_of_well fault hnonce hfresh hupdates
    simp only [Except.ok.injEq, exists_eq', forall_const]
    match fault with
    | none => exact iff_of_true (hwell nofun ⟨nofun, nofun⟩) id
    | some (.backup i err) =>
      refine iff_of_true ?_ id
      by_cases hi : i < updates.length
      · exact allOrNothing_of_backup hnonce hfresh hupdates hi
      · exact hwell nofun ⟨fun _ _ h => by cases h; exact .inr (by omega), nofun⟩
    | some (.swap i err) =>
      by_cases hi : i < updates.length
      · exact iff_of_false (not_allOrNothing_of_swap hnonce hfresh hupdates _ hi) fun h => h hi
      · exact iff_of_true (hwell nofun ⟨nofun, fun _ _ h => by cases h; exact .inr (by omega)⟩) hi
    | some (.write i err left) =>
      by_cases hi : i < updates.length
      · rw [allOrNothing_of_write hnonce hfresh hupdates hi]
        cases left with
        | none => exact iff_of_true rfl id
        | some part => exact iff_of_false (by simp) fun h => h hi
      · refine iff_of_true (hwell (fun _ _ _ h => by cases h; exact .inr (by omega)) ⟨nofun, nofun⟩) ?_
        cases left with
        | none => exact id
        | some part => exact hi

/-- One file that is replaced. -/
def mainUpdate : FileUpdate := ⟨⟨"src", .text "main.nomo"⟩, "package app.main\n", "package main\n"⟩

/-- The disk with that file. -/
def mainDisk : Disk Path String := fun path =>
  if path = mainUpdate.path then some mainUpdate.original else none

/-- A process. -/
def mainProcess : Environment := ⟨42, .ok 7, fun path => path.parent⟩

theorem fresh_main : ∀ nonce, mainProcess.nonce = .ok nonce →
    Fresh mainProcess.processId nonce [mainUpdate] mainDisk := by
  rintro nonce ⟨⟩ i update hget extension hextension
  obtain ⟨rfl, rfl⟩ : i = 0 ∧ update = mainUpdate := by
    cases i with
    | zero => exact ⟨rfl, (Option.some.inj hget).symm⟩
    | succ i => cases hget
  rcases List.mem_cons.1 hextension with rfl | hextension
  · decide
  · obtain rfl := List.mem_singleton.1 hextension
    decide

theorem replaceable_main : Replaceable [mainUpdate] mainDisk :=
  ⟨by simp, fun update hupdate => ⟨"package main\n", by rw [List.mem_singleton.1 hupdate]; rfl⟩⟩

/-- A rename to the backup that fails is undone. -/
theorem replaceFilesAtomically_allOrNothing_iff_main :
    AllOrNothing [mainUpdate] mainDisk
        (replaceFilesAtomically mainProcess (some (.backup 0 "denied")) [mainUpdate] mainDisk) ↔
      ((∃ nonce, mainProcess.nonce = .ok nonce) → ¬ Leaves 1 (some (.backup 0 "denied"))) :=
  replaceFilesAtomically_allOrNothing_iff replaceable_main fresh_main

/-- Not every error is undone: the new content stays where the second rename fails. -/
theorem replaceFilesAtomically_leaves : ¬ ∀ (env : Environment) (fault : Option Fault)
    (updates : List FileUpdate) (disk : Disk Path String), Replaceable updates disk →
      (∀ nonce, env.nonce = .ok nonce → Fresh env.processId nonce updates disk) →
      AllOrNothing updates disk (replaceFilesAtomically env fault updates disk) := by
  intro h
  exact not_allOrNothing_of_swap (i := 0) rfl (fresh_main 7 rfl) replaceable_main "denied"
    (by decide) (h mainProcess _ _ _ replaceable_main fresh_main)

end Nomo.Migration
