import Mathlib.Data.Nat.Digits.Defs
import Mathlib.Data.String.Basic
import Statechart.Proofs.Chart.Bounds
import Statechart.Snapshot.Storage

/- What storages answer after any calls.

   The storage in memory keeps payloads under keys, a directory keeps them under the names of files.
   So the two give the same answers as long as no two keys in use have one file name, and tell any
   two such keys apart. -/
namespace Statechart

namespace Text

theorem mem_toDigitsCore {fuel n : Nat} {acc : List Char} {c : Char}
    (inside : c ∈ Nat.toDigitsCore 16 fuel n acc) : (∃ d < 16, c = Nat.digitChar d) ∨ c ∈ acc := by
  induction fuel generalizing n acc with
  | zero => exact Or.inr inside
  | succ fuel ih =>
    rw [Nat.toDigitsCore] at inside
    have first : c ∈ Nat.digitChar (n % 16) :: acc → (∃ d < 16, c = Nat.digitChar d) ∨ c ∈ acc := by
      intro inside
      rcases List.mem_cons.mp inside with rfl | old
      · exact Or.inl ⟨n % 16, Nat.mod_lt n (by decide), rfl⟩
      · exact Or.inr old
    split at inside
    · exact first inside
    · exact (ih inside).elim Or.inl first

theorem mem_hexPadded {width n : Nat} {c : Char} (inside : c ∈ (hexPadded width n).toList) :
    ∃ d < 16, c = Nat.digitChar d := by
  unfold hexPadded at inside
  rw [String.toList_ofList] at inside
  rcases List.mem_append.mp inside with zero | digit
  · exact ⟨0, by decide, (List.mem_replicate.mp zero).2⟩
  · exact (mem_toDigitsCore digit).resolve_right List.not_mem_nil

/-- A digit takes one byte. -/
theorem utf8Size_digitChar : ∀ d < 16, (Nat.digitChar d).utf8Size = 1 := by decide

theorem utf8Len_of_digits {cs : List Char} (digits : ∀ c ∈ cs, ∃ d < 16, c = Nat.digitChar d) :
    String.utf8Len cs = cs.length := by
  induction cs with
  | nil => rfl
  | cons c rest ih =>
    obtain ⟨d,small,rfl⟩ := digits c List.mem_cons_self
    rw [String.utf8Len_cons, ih fun c later => digits c (List.mem_cons_of_mem _ later),
      utf8Size_digitChar d small, List.length_cons]

/-- Filling up with zeros gives the width, in bytes, if there are not too many digits. -/
theorem utf8ByteSize_hexPadded {width n : Nat} (some : 0 < width) (small : n < 16 ^ width) :
    (hexPadded width n).utf8ByteSize = width := by
  have short : (Nat.toDigits 16 n).length ≤ width := Nat.toDigits_length 16 n width some small
  have digits : ∀ c ∈ (hexPadded width n).toList, ∃ d < 16, c = Nat.digitChar d := fun _ =>
    mem_hexPadded
  unfold hexPadded at digits ⊢
  rw [String.toList_ofList] at digits
  rw [String.utf8ByteSize_ofList, utf8Len_of_digits digits, List.length_append,
    List.length_replicate]
  omega

end Text

namespace Bytes

theorem toList_loop (b : ByteArray) (i : Nat) (acc : List UInt8) :
    ByteArray.toList.loop b i acc = acc.reverse ++ b.data.toList.drop i := by
  fun_induction ByteArray.toList.loop b i acc with
  | case1 i acc within ih =>
    have here : b.data.toList.drop i = b.get! i :: b.data.toList.drop (i + 1) := by
      rw [List.drop_eq_getElem_cons (by simpa using within)]
      congr 1
      exact (getElem!_pos b.data i (by simpa using within)).symm
    rw [ih, here, List.reverse_cons, List.append_assoc]
    rfl
  | case2 i acc beyond =>
    rw [List.drop_eq_nil_of_le (by simpa using beyond), List.append_nil]

theorem length_ofText (s : String) : (ofText s).length = s.utf8ByteSize := by
  have whole : s.toUTF8.toList = s.toUTF8.data.toList := toList_loop s.toUTF8 0 []
  rw [ofText, whole, Array.length_toList]
  rfl

end Bytes

namespace Storage

variable {payload : Bytes} {entries : List (String × Bytes)} {name : String}

theorem length_checksumBytes (payload : Bytes) : (checksumBytes payload).length = 8 := by
  rw [checksumBytes, Bytes.length_ofText]
  exact Text.utf8ByteSize_hexPadded (by decide) (Checksum.ofBytes payload).toNat_lt

theorem unframe_framed (key : String) (payload : Bytes) :
    unframe key (framed payload) = .ok payload := by
  have eight := length_checksumBytes payload
  have rest : (framed payload).drop 9 = payload := by
    simp [framed, List.drop_append, eight]
  unfold unframe
  rw [if_neg, rest]
  · simp [framed, ← eight]
  · simp [framed, eight]
    omega

theorem lookup_put (entries : List (String × Bytes)) (name n : String) (bytes : Bytes) :
    (put entries name bytes).lookup n = if n = name then some bytes else entries.lookup n := by
  rw [put, List.lookup_cons, lookup_filter]
  by_cases here : n = name
  · simp [here]
  · rw [beq_false_of_ne here, if_neg here, if_neg here]

theorem scratchName_ne_fileName (key key' : String) : scratchName key ≠ fileName key' := by
  intro same
  have letters := congrArg (fun s => s.toList.reverse[1]?) same
  simp only [scratchName, fileName, String.toList_append, List.reverse_append] at letters
  split at letters <;> simp at letters

section Others

variable {s s' : Storage} {key key' : String}

theorem load_files_congr {dir dir' : List (String × Bytes)}
    (same : dir'.lookup (fileName key) = dir.lookup (fileName key)) :
    (files dir').load key = (files dir).load key := by
  simp only [load, same]

theorem load_save (apart : fileName key ≠ fileName key') (saved : s.save key payload = .ok s') :
    s'.load key' = s.load key' := by
  cases s with
  | memory entries =>
    cases saved
    have other : key' ≠ key := fun same => apart (congrArg fileName same.symm)
    simp only [load, lookup_put, if_neg other]
  | files dir =>
    unfold save at saved
    simp only at saved
    split at saved
    · cases saved
      refine load_files_congr ?_
      rw [lookup_put, lookup_filter, if_neg apart.symm, if_neg (scratchName_ne_fileName key key').symm]
    · cases saved

theorem load_remove (apart : fileName key ≠ fileName key') :
    (s.remove key).load key' = s.load key' := by
  cases s with
  | memory entries =>
    have other : key' ≠ key := fun same => apart (congrArg fileName same.symm)
    simp only [remove, load, lookup_filter, if_neg other]
  | files dir =>
    refine load_files_congr ?_
    rw [lookup_filter, if_neg apart.symm]

theorem load_removed (s : Storage) (key : String) : (s.remove key).load key = .ok none := by
  cases s with
  | memory entries => simp only [remove, load, lookup_filter, if_pos]
  | files dir => simp only [remove, load, lookup_filter, if_pos]

end Others

/-- What can be asked of a storage. -/
inductive Call where
  | save (key : String) (payload : Bytes)
  | load (key : String)
  | remove (key : String)

def Call.key : Call → String
  | .save key _ | .load key | .remove key => key

/-- A directory can take the files that are written for the call. -/
def Call.Fits : Call → Prop
  | .save key _ => canName (scratchName key)
  | .load _ | .remove _ => True

/-- The answer to a call and the storage after it, which a failing one leaves as it was. -/
def call (s : Storage) : Call → Storage × Except Fault (Option Bytes)
  | .save key payload =>
    match s.save key payload with
    | .ok s' => (s', .ok none)
    | .error f => (s, .error f)
  | .load key => (s, s.load key)
  | .remove key => (s.remove key, .ok none)

def answers (s : Storage) : List Call → List (Except Fault (Option Bytes))
  | [] => []
  | c :: rest => (s.call c).2 :: answers (s.call c).1 rest

/-- What calls, the last one first, leave under a name. -/
def held (naming : String → String) (name : String) : List Call → Option Bytes
  | [] => none
  | .save key payload :: past => if name = naming key then some payload else held naming name past
  | .load _ :: past => held naming name past
  | .remove key :: past => if name = naming key then none else held naming name past

def Call.Writes (naming : String → String) (name : String) : Call → Prop
  | .save key _ | .remove key => name = naming key
  | .load _ => False

/-- Just the last payload that was saved under the name and not removed since. -/
theorem held_eq_some_iff {naming : String → String} {past : List Call} :
    held naming name past = some payload ↔ ∃ later key earlier,
      past = later ++ .save key payload :: earlier ∧ name = naming key ∧
        ∀ c ∈ later, ¬ c.Writes naming name := by
  induction past with
  | nil => simp [held]
  | cons c past ih =>
    have later : ¬ c.Writes naming name → (held naming name past = some payload ↔
        ∃ later key earlier, c :: past = later ++ .save key payload :: earlier ∧
          name = naming key ∧ ∀ c ∈ later, ¬ c.Writes naming name) := by
      intro idle
      rw [ih]
      constructor
      · rintro ⟨later,key,earlier,rfl,named,idles⟩
        exact ⟨c :: later, key, earlier, rfl, named, List.forall_mem_cons.mpr ⟨idle, idles⟩⟩
      · rintro ⟨later,key,earlier,same,named,idles⟩
        cases later with
        | nil =>
          cases same
          exact absurd named idle
        | cons _ later =>
          cases same
          exact ⟨later, key, earlier, rfl, named, fun c inside =>
            idles c (List.mem_cons_of_mem _ inside)⟩
    have first : c.Writes naming name → ∀ later key earlier,
        c :: past = later ++ .save key payload :: earlier →
          (∀ c ∈ later, ¬ c.Writes naming name) → c = .save key payload := by
      intro writes later key earlier same idles
      cases later with
      | nil => exact (List.cons.inj same).1
      | cons _ later =>
        cases same
        exact absurd writes (idles c List.mem_cons_self)
    cases c with
    | load key => exact later id
    | save key bytes =>
      rw [held]
      by_cases named : name = naming key
      · rw [if_pos named]
        constructor
        · rintro ⟨rfl⟩
          exact ⟨[], key, past, rfl, named, nofun⟩
        · rintro ⟨l,k,e,same,_,idles⟩
          cases first named l k e same idles
          rfl
      · rw [if_neg named]
        exact later named
    | remove key =>
      rw [held]
      by_cases named : name = naming key
      · rw [if_pos named]
        constructor
        · exact nofun
        · rintro ⟨l,k,e,same,_,idles⟩
          cases first named l k e same idles
      · rw [if_neg named]
        exact later named

/-- What a storage keeps is what the calls so far, the last one first, have left. -/
def Keeps : Storage → List Call → Prop
  | .memory entries, past => ∀ key, entries.lookup key = held id key past
  | .files dir, past => ∀ key,
      dir.lookup (fileName key) = (held fileName (fileName key) past).map framed

/-- What is answered to one call after others. -/
def answer (naming : String → String) (past : List Call) : Call → Option Bytes
  | .load key => held naming (naming key) past
  | _ => none

/-- What is answered to calls after others. -/
def owed (naming : String → String) : List Call → List Call → List (Option Bytes)
  | _, [] => []
  | past, c :: rest => answer naming past c :: owed naming (c :: past) rest

section Keeping

variable {past : List Call}

theorem keeps_memory (keeps : Keeps (.memory entries) past) (c : Call) :
    ∃ entries', (memory entries).call c = (memory entries', .ok (answer id past c)) ∧
      Keeps (.memory entries') (c :: past) := by
  cases c with
  | save key payload =>
    refine ⟨_, rfl, fun k => ?_⟩
    rw [lookup_put, keeps k]
    rfl
  | load key => exact ⟨entries, by rw [call, load, keeps key]; rfl, keeps⟩
  | remove key =>
    refine ⟨_, rfl, fun k => ?_⟩
    rw [lookup_filter, keeps k]
    rfl

theorem keeps_files {dir : List (String × Bytes)} (keeps : Keeps (.files dir) past) (c : Call)
    (fits : c.Fits) :
    ∃ dir', (files dir).call c = (files dir', .ok (answer fileName past c)) ∧
      Keeps (.files dir') (c :: past) := by
  cases c with
  | save key payload =>
    have fits : canName (scratchName key) = true := fits
    refine ⟨_, by simp only [call, save, if_pos fits]; rfl, fun k => ?_⟩
    rw [lookup_put, lookup_filter, if_neg (scratchName_ne_fileName key k).symm, keeps k, held]
    split <;> rfl
  | load key =>
    refine ⟨dir, ?_, keeps⟩
    rw [call, load, keeps key, answer]
    cases held fileName (fileName key) past with
    | none => rfl
    | some payload => simp [unframe_framed, Except.map]
  | remove key =>
    refine ⟨_, rfl, fun k => ?_⟩
    rw [lookup_filter, keeps k, held]
    split <;> rfl

theorem answers_memory (keeps : Keeps (.memory entries) past) (calls : List Call) :
    (memory entries).answers calls = (owed id past calls).map .ok := by
  induction calls generalizing entries past with
  | nil => rfl
  | cons c rest ih =>
    obtain ⟨entries',done,keeps'⟩ := keeps_memory keeps c
    rw [answers, done, ih keeps']
    rfl

theorem answers_files {dir : List (String × Bytes)} (keeps : Keeps (.files dir) past)
    {calls : List Call} (fits : ∀ c ∈ calls, c.Fits) :
    (files dir).answers calls = (owed fileName past calls).map .ok := by
  induction calls generalizing dir past with
  | nil => rfl
  | cons c rest ih =>
    obtain ⟨dir',done,keeps'⟩ := keeps_files keeps c (fits c List.mem_cons_self)
    rw [answers, done, ih keeps' fun c later => fits c (List.mem_cons_of_mem _ later)]
    rfl

end Keeping

section Sharing

variable {keys : Set String} {past : List Call} {key key' : String}

/-- Two of the keys have one file only if there can be no such file. -/
def Apart (keys : Set String) : Prop :=
  ∀ k ∈ keys, ∀ k' ∈ keys, canName (scratchName k) → fileName k = fileName k' → k = k'

theorem eq_of_fileName (plain : ∀ c ∈ key.toList, isFileChar c)
    (plain' : ∀ c ∈ key'.toList, isFileChar c) (same : fileName key = fileName key') : key = key' := by
  have kept : ∀ k : String, (∀ c ∈ k.toList, isFileChar c) →
      (k.toList.map fun c => if isFileChar c then c else '_') = k.toList := fun k plain =>
    calc (k.toList.map fun c => if isFileChar c then c else '_')
        = k.toList.map id := List.map_congr_left fun c inside => if_pos (plain c inside)
      _ = k.toList := List.map_id _
  have letters := congrArg String.toList same
  rw [fileName, fileName, kept key plain, kept key' plain', String.toList_append,
    String.toList_append, String.ofList_toList, String.ofList_toList] at letters
  exact String.toList_inj.mp (List.append_cancel_right letters)

theorem apart_of_fileChars (plain : ∀ k ∈ keys, ∀ c ∈ k.toList, isFileChar c) : Apart keys :=
  fun k used k' used' _ => eq_of_fileName (plain k used) (plain k' used')

theorem eq_empty_of_fileName (same : fileName key = fileName "") : key = "" := by
  have letters := congrArg String.length same
  simp [fileName] at letters
  exact letters

theorem scratchName_congr (same : fileName key = fileName key') :
    scratchName key = scratchName key' := by
  by_cases empty : key = ""
  · subst empty
    rw [eq_empty_of_fileName same.symm]
  · have other : key' ≠ "" := fun h => empty (eq_empty_of_fileName (same.trans (h ▸ rfl)))
    simp [scratchName, same, empty, other]

theorem held_eq_none_of_unfit (fits : ∀ c ∈ past, c.Fits) (unfit : ¬ canName (scratchName key)) :
    held id key past = none := by
  induction past with
  | nil => rfl
  | cons c past ih =>
    obtain ⟨fit,rest⟩ := List.forall_mem_cons.mp fits
    cases c with
    | save k payload =>
      have other : key ≠ id k := fun here => unfit (here ▸ fit)
      rw [held, if_neg other]
      exact ih rest
    | load k => exact ih rest
    | remove k => rw [held, ih rest, ite_self]

/-- Under keys that are told apart, a file holds what was saved under its key. -/
theorem held_fileName (apart : Apart keys) (past_fits : ∀ c ∈ past, c.Fits ∧ c.key ∈ keys)
    (inside : key ∈ keys) : held fileName (fileName key) past = held id key past := by
  induction past with
  | nil => rfl
  | cons c past ih =>
    obtain ⟨⟨fit,used⟩,fits⟩ := List.forall_mem_cons.mp past_fits
    cases c with
    | save k payload =>
      have same : fileName key = fileName k ↔ key = id k :=
        ⟨fun h => (apart k used key inside fit h.symm).symm, congrArg fileName⟩
      rw [held, held, ih fits]
      simp only [same]
    | load k => exact ih fits
    | remove k =>
      rw [held, held, ih fits]
      by_cases here : fileName key = fileName k
      · by_cases fit : canName (scratchName k)
        · have own : key = id k := (apart k used key inside fit here.symm).symm
          rw [if_pos here, if_pos own]
        · rw [held_eq_none_of_unfit (fun c old => (fits c old).1) (scratchName_congr here ▸ fit),
            ite_self, ite_self]
      · have other : key ≠ id k := fun h => here (congrArg fileName h)
        rw [if_neg here, if_neg other]

theorem owed_fileName (apart : Apart keys) {calls : List Call}
    (past_fits : ∀ c ∈ past, c.Fits ∧ c.key ∈ keys) (fits : ∀ c ∈ calls, c.Fits ∧ c.key ∈ keys) :
    owed fileName past calls = owed id past calls := by
  induction calls generalizing past with
  | nil => rfl
  | cons c rest ih =>
    obtain ⟨first,rest_fits⟩ := List.forall_mem_cons.mp fits
    rw [owed, owed, ih (List.forall_mem_cons.mpr ⟨first, past_fits⟩) rest_fits]
    congr 1
    cases c with
    | save k payload => rfl
    | load k => exact held_fileName apart past_fits first.2
    | remove k => rfl

end Sharing

/-- As long as files can be written, no call fails, the storage in memory answers with what was
    last saved under the key, and a directory with what was last saved under any key of the same
    file, and not removed since. So calls under some keys are answered alike just if no two of the
    keys share a file, and keys that are file names themselves share none. -/
theorem storages_agree_unless_shared (keys : Set String) :
    (∀ calls : List Call, (∀ c ∈ calls, c.Fits) →
      (memory []).answers calls = (owed id [] calls).map .ok ∧
      (files []).answers calls = (owed fileName [] calls).map .ok) ∧
    (∀ naming name past payload, held naming name past = some payload ↔
      ∃ later key earlier, past = later ++ .save key payload :: earlier ∧ name = naming key ∧
        ∀ c ∈ later, ¬ c.Writes naming name) ∧
    ((∀ calls : List Call, (∀ c ∈ calls, c.Fits ∧ c.key ∈ keys) →
        (files []).answers calls = (memory []).answers calls) ↔ Apart keys) ∧
    ((∀ k ∈ keys, ∀ c ∈ k.toList, isFileChar c) → Apart keys) := by
  have alone : ∀ calls : List Call, (∀ c ∈ calls, c.Fits) →
      (memory []).answers calls = (owed id [] calls).map .ok ∧
      (files []).answers calls = (owed fileName [] calls).map .ok := fun calls fits =>
    ⟨answers_memory (fun _ => rfl) calls, answers_files (fun _ => rfl) fits⟩
  refine ⟨alone, fun _ _ _ _ => held_eq_some_iff, ⟨fun alike => ?_, fun apart calls fits => ?_⟩,
    apart_of_fileChars⟩
  · intro k used k' used' fit same
    have calls := alike [.save k [], .load k'] (by simp [Call.key, used, used']; exact ⟨fit, trivial⟩)
    obtain ⟨inMemory,inFiles⟩ := alone [.save k [], .load k'] (by simp; exact ⟨fit, trivial⟩)
    rw [inMemory, inFiles] at calls
    by_contra other
    simp [owed, answer, held, same, Ne.symm other] at calls
  · obtain ⟨inMemory,inFiles⟩ := alone calls fun c inside => (fits c inside).1
    have renamed : owed fileName [] calls = owed id [] calls := owed_fileName apart nofun fits
    rw [inMemory, inFiles, renamed]

end Storage

namespace Shelf

open Storage

/-- Two keys of one file. -/
def slashed : List Call := [.save "a/b" [102], .load "a_b"]

/-- A directory answers with what was saved under another key. -/
theorem file_shared :
    ¬ ∀ calls : List Call, (∀ c ∈ calls, c.Fits) →
      (files []).answers calls = (memory []).answers calls := by
  intro alike
  have fits : ∀ c ∈ slashed, c.Fits := by simp [slashed, Call.Fits]; decide
  have same := alike slashed fits
  have inFiles : (files []).answers slashed = (owed fileName [] slashed).map .ok :=
    answers_files (fun _ => rfl) fits
  have inMemory : (memory []).answers slashed = (owed id [] slashed).map .ok :=
    answers_memory (fun _ => rfl) slashed
  rw [inFiles, inMemory] at same
  revert same
  decide

end Shelf

end Statechart
