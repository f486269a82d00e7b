import Mathlib
import TestJob.Disk
import TestJob.Proofs.Outcome
import TestJob.Proofs.Path

/-!
What is seen of a tree. `Disk.look` tells what stands at a location, whatever object it is; walking
a path, reading it and asking whether it is a directory see nothing else. Each change of a disk is
described by what it does to `look`.
-/

namespace TestJob

/-- What is seen at a location. -/
inductive Sight where
  | directory
  | file (contents : Bytes)
deriving DecidableEq

namespace Disk

/-- What an entry looks like. -/
def sight (disk : Disk) : Entry → Sight
  | .directory => .directory
  | .file object => .file (disk.contents object)

/-- What stands at a location, if anything does. -/
def look (disk : Disk) (location : Location) : Option Sight :=
  (disk.entry? location).map disk.sight

theorem look_root (disk : Disk) : disk.look [] = some .directory := rfl

theorem look_eq_none_iff {disk : Disk} {location : Location} :
    disk.look location = none ↔ disk.entry? location = none := by
  rw [look, Option.map_eq_none_iff]

theorem look_eq_directory_iff {disk : Disk} {location : Location} :
    disk.look location = some .directory ↔ disk.entry? location = some .directory := by
  rw [look]
  cases disk.entry? location with
  | none => exact iff_of_false (by simp) (by simp)
  | some entry =>
    cases entry with
    | directory => exact iff_of_true rfl rfl
    | file object => exact iff_of_false (by simp [sight]) (by simp)

theorem look_of_file {disk : Disk} {location : Location} {object : Nat}
    (h : disk.entry? location = some (.file object)) :
    disk.look location = some (.file (disk.contents object)) := by
  rw [look, h]
  rfl

/-! ### Walking -/

/-- One segment further, as far as it can be seen. -/
theorem descend_eq (disk : Disk) (location : Location) (segment : Bytes) :
    disk.descend location segment =
      if Path.isIdle segment then .ok location
      else if segment = Path.above then .ok location.tail
      else if nameLimit < segment.length then .error .nameTooLong
      else
        match disk.look (segment :: location) with
        | none => .error .notFound
        | some (.file _) => .error .notDirectory
        | some .directory => .ok (segment :: location) := by
  rw [descend, look]
  cases disk.entry? (segment :: location) with
  | none => rfl
  | some entry => cases entry <;> rfl

theorem descend_idle (disk : Disk) (location : Location) {segment : Bytes}
    (h : Path.isIdle segment = true) : disk.descend location segment = .ok location := by
  rw [descend, if_pos h]

theorem foldlM_descend_idle (disk : Disk) (location : Location) :
    ∀ {parts : List Bytes}, (∀ part ∈ parts, Path.isIdle part = true) →
      parts.foldlM disk.descend location = .ok location
  | [], _ => rfl
  | part :: parts, h => by
    obtain ⟨hpart, hparts⟩ := List.forall_mem_cons.1 h
    rw [List.foldlM_cons, descend_idle disk location hpart]
    exact foldlM_descend_idle disk location hparts

theorem foldlM_descend_append_idle (disk : Disk) (location : Location) (parts : List Bytes)
    {idle : List Bytes} (h : ∀ part ∈ idle, Path.isIdle part = true) :
    (parts ++ idle).foldlM disk.descend location = parts.foldlM disk.descend location := by
  rw [List.foldlM_append]
  cases parts.foldlM disk.descend location with
  | error e => rfl
  | ok reached => exact foldlM_descend_idle disk reached h

/-- Empty segments go nowhere, so they may be left out. -/
theorem foldlM_descend_filter (disk : Disk) :
    ∀ (parts : List Bytes) (location : Location),
      (parts.filter (· ≠ [])).foldlM disk.descend location = parts.foldlM disk.descend location
  | [], _ => rfl
  | part :: parts, location => by
    by_cases hpart : part = []
    · have hidle : Path.isIdle part = true := by rw [hpart]; rfl
      rw [List.filter_cons_of_neg (by simpa using hpart), foldlM_descend_filter disk parts,
        List.foldlM_cons, descend_idle disk location hidle]
      rfl
    · rw [List.filter_cons_of_pos (by simpa using hpart), List.foldlM_cons, List.foldlM_cons]
      refine bind_congr fun reached => ?_
      exact foldlM_descend_filter disk parts reached

/-- A disk has every directory of another. -/
def Keeps (before after : Disk) : Prop :=
  ∀ location, before.look location = some .directory → after.look location = some .directory

/-- A walk that succeeds goes through directories alone. -/
theorem Keeps.descend {before after : Disk} (h : Keeps before after) {location reached : Location}
    {segment : Bytes} (hreached : before.descend location segment = .ok reached) :
    after.descend location segment = .ok reached := by
  rw [descend_eq] at hreached ⊢
  split at hreached
  · next hidle => rw [if_pos hidle, hreached]
  · next hidle =>
    split at hreached
    · next habove => rw [if_neg hidle, if_pos habove, hreached]
    · next habove =>
      split at hreached
      · exact absurd hreached (by simp)
      · next hlong =>
        rw [if_neg hidle, if_neg habove, if_neg hlong]
        split at hreached
        · exact absurd hreached (by simp)
        · exact absurd hreached (by simp)
        · next hlook => rw [h _ hlook, hreached]

theorem Keeps.walk {before after : Disk} (h : Keeps before after) :
    ∀ {parts : List Bytes} {location reached : Location},
      parts.foldlM before.descend location = .ok reached →
      parts.foldlM after.descend location = .ok reached
  | [], _, _, hreached => hreached
  | part :: parts, location, reached, hreached => by
    obtain ⟨next, hpart, hparts⟩ := foldlM_cons_eq_ok_iff.1 hreached
    exact foldlM_cons_eq_ok_iff.2 ⟨next, h.descend hpart, h.walk hparts⟩

/-! ### Paths -/

/-- What a path with a last name means, once the way to the name has been walked. -/
def ending (disk : Disk) (parent : Location) (name : Bytes) (idle : List Bytes) :
    Except IoError Place :=
  if Path.here ∈ idle then Place.walked <$> disk.descend parent name
  else .ok (.named parent name (idle ≠ []))

section Splits

variable {path : Path} {way : List Bytes} {name : Bytes} {idle : List Bytes}

theorem eq_nil_or_here {segment : Bytes} (h : Path.isIdle segment = true) :
    segment = [] ∨ segment = Path.here := by
  rwa [Path.isIdle, Bool.or_eq_true, decide_eq_true_eq, decide_eq_true_eq] at h

theorem eq_here_of_mem_filter (hidle : ∀ part ∈ idle, Path.isIdle part = true) :
    ∀ part ∈ idle.filter (· ≠ []), part = Path.here := by
  intro part hpart
  rw [List.mem_filter, decide_eq_true_eq] at hpart
  exact (eq_nil_or_here (hidle part hpart.1)).resolve_left hpart.2

/-- Where an idle end has a dot, the last of its segments that count is one, as are all others. -/
theorem exists_dots (hidle : ∀ part ∈ idle, Path.isIdle part = true) (hhere : Path.here ∈ idle) :
    ∃ dots, idle.filter (· ≠ []) = dots ++ [Path.here] ∧
      ∀ part ∈ dots, Path.isIdle part = true := by
  have hdot : Path.here ∈ idle.filter (· ≠ []) := List.mem_filter.2 ⟨hhere, by decide⟩
  obtain ⟨dots, last, hdots⟩ :=
    (List.eq_nil_or_concat' (idle.filter (· ≠ []))).resolve_left (List.ne_nil_of_mem hdot)
  have hall := eq_here_of_mem_filter hidle
  rw [hdots] at hall
  obtain rfl : last = Path.here := hall last (List.mem_append_right _ List.mem_cons_self)
  refine ⟨dots, hdots, fun part hpart => ?_⟩
  rw [hall part (List.mem_append_left _ hpart)]
  rfl

theorem filter_eq_nil (hidle : ∀ part ∈ idle, Path.isIdle part = true)
    (hhere : Path.here ∉ idle) : idle.filter (· ≠ []) = [] := by
  rw [List.eq_nil_iff_forall_not_mem]
  intro part hpart
  rw [eq_here_of_mem_filter hidle part hpart] at hpart
  exact hhere (List.mem_filter.1 hpart).1

/-- Without a dot at its end, a path ends in a slash unless it ends in its last name. -/
theorem getLast?_segments_eq_nil_iff (h : path.Split way name idle) (hhere : Path.here ∉ idle) :
    path.segments.getLast? = some [] ↔ idle ≠ [] := by
  rw [h.segments_eq]
  obtain rfl | ⟨before, last, rfl⟩ := List.eq_nil_or_concat' idle
  · rw [List.getLast?_concat, Option.some.injEq]
    exact iff_of_false (Path.ne_nil_of_not_idle h.not_idle) (fun hne => hne rfl)
  · have hmem : last ∈ before ++ [last] := List.mem_append_right _ List.mem_cons_self
    have hlast : last = [] :=
      (eq_nil_or_here (h.idle_end last hmem)).resolve_right fun heq => hhere (heq ▸ hmem)
    rw [← List.cons_append, ← List.append_assoc, List.getLast?_concat, hlast]
    exact iff_of_true rfl (by simp)

/-- A path that is no path for its bytes means nothing on any disk; any other is walked. -/
theorem locate_of_split (h : path.Split way name idle) :
    (∃ e, ∀ (disk : Disk) (directory : Location), disk.locate directory path = .error e) ∨
      ∀ (disk : Disk) (directory : Location), disk.locate directory path =
        way.foldlM disk.descend (origin directory path) >>= fun parent =>
          disk.ending parent name idle := by
  by_cases hzero : 0 ∈ path.bytes
  · exact .inl ⟨_, fun disk directory => by rw [locate, if_pos hzero]⟩
  by_cases hempty : path.bytes = []
  · exact .inl ⟨_, fun disk directory => by rw [locate, if_neg hzero, if_pos hempty]⟩
  by_cases hlong : pathLimit ≤ path.bytes.length
  · exact .inl ⟨_, fun disk directory => by
      rw [locate, if_neg hzero, if_neg hempty, if_pos hlong]⟩
  refine .inr fun disk directory => ?_
  have hname : name ≠ [] := Path.ne_nil_of_not_idle h.not_idle
  have hnames : path.segments.filter (· ≠ []) =
      way.filter (· ≠ []) ++ name :: idle.filter (· ≠ []) := by
    rw [h.segments_eq, List.filter_append, List.filter_cons_of_pos (by simpa using hname)]
  rw [locate, if_neg hzero, if_neg hempty, if_neg hlong]
  dsimp only
  rw [hnames]
  by_cases hhere : Path.here ∈ idle
  · -- the walk goes through the name and the dots before the last one
    obtain ⟨dots, hdots, hidle⟩ := exists_dots h.idle_end hhere
    have hwalk : ∀ parent, (name :: dots).foldlM disk.descend parent =
        disk.descend parent name := by
      intro parent
      rw [← List.singleton_append, foldlM_descend_append_idle disk parent [name] hidle]
      exact bind_pure _
    rw [hdots, ← List.cons_append, ← List.append_assoc, List.getLast?_concat,
      List.dropLast_concat, List.foldlM_append, foldlM_descend_filter]
    simp only [bind_assoc, hwalk, if_true]
    refine bind_congr fun parent => ?_
    rw [ending, if_pos hhere]
    rfl
  · have hnamed : name ≠ Path.here := by
      rintro rfl
      exact absurd h.not_idle (by decide)
    rw [filter_eq_nil h.idle_end hhere, List.getLast?_concat, List.dropLast_concat,
      foldlM_descend_filter]
    dsimp only
    refine bind_congr fun parent => ?_
    rw [if_neg hnamed, if_neg h.ne_above, ending, if_neg hhere]
    simp only [getLast?_segments_eq_nil_iff h hhere]

/-- A path that ends in its last name means that name in the directory the way leads to. -/
theorem locate_eq_ok_of_split {disk : Disk} {directory : Location} {place : Place}
    (h : path.Split way name []) (hplace : disk.locate directory path = .ok place) :
    ∃ parent, way.foldlM disk.descend (origin directory path) = .ok parent ∧
      place = .named parent name false := by
  rcases locate_of_split h with ⟨e, hnone⟩ | hlocate
  · rw [hnone] at hplace
    cases hplace
  · rw [hlocate, bind_eq_ok_iff] at hplace
    obtain ⟨parent, hway, hending⟩ := hplace
    exact ⟨parent, hway, (Except.ok.inj hending).symm⟩

theorem Keeps.locate {before after : Disk} (hkeeps : Keeps before after) {directory : Location}
    {place : Place} (h : path.Split way name [])
    (hplace : before.locate directory path = .ok place) :
    after.locate directory path = .ok place := by
  obtain ⟨parent, hway, rfl⟩ := locate_eq_ok_of_split h hplace
  rcases locate_of_split h with ⟨e, hnone⟩ | hlocate
  · rw [hnone] at hplace
    cases hplace
  · rw [hlocate, hkeeps.walk hway]
    rfl

/-- A path that means a name means the one it ends in, and does so wherever the way can be
walked. -/
theorem locate_named_of_split {disk : Disk} {directory parent parent' : Location} {name' : Bytes}
    {slash : Bool} (h : path.Split way name idle)
    (hway : way.foldlM disk.descend (origin directory path) = .ok parent)
    (hplace : disk.locate directory path = .ok (.named parent' name' slash)) :
    parent' = parent ∧ name' = name ∧
      ∀ other : Disk, way.foldlM other.descend (origin directory path) = .ok parent →
        other.locate directory path = .ok (.named parent name slash) := by
  rcases locate_of_split h with ⟨e, hnone⟩ | hlocate
  · rw [hnone] at hplace
    cases hplace
  rw [hlocate, hway] at hplace
  change disk.ending parent name idle = _ at hplace
  by_cases hhere : Path.here ∈ idle
  · rw [ending, if_pos hhere] at hplace
    cases hreached : disk.descend parent name with
    | error e =>
      rw [hreached] at hplace
      cases hplace
    | ok reached =>
      rw [hreached] at hplace
      cases hplace
  · rw [ending, if_neg hhere] at hplace
    cases hplace
    refine ⟨rfl, rfl, fun other hother => ?_⟩
    rw [hlocate, hother]
    exact if_neg hhere

/-! ### Reading -/

theorem read_of_named {disk : Disk} {directory parent : Location} {slash : Bool}
    (h : disk.locate directory path = .ok (.named parent name slash)) :
    disk.read directory path =
      if nameLimit < name.length then .error .nameTooLong
      else
        match disk.look (name :: parent) with
        | none => .error .notFound
        | some .directory => .error .isDirectory
        | some (.file contents) => if slash then .error .notDirectory else .ok contents := by
  rw [read, h, look]
  change (disk.existing _ >>= _) = _
  rw [existing]
  by_cases hlong : nameLimit < name.length
  · rw [if_pos hlong, if_pos hlong]
    rfl
  · rw [if_neg hlong, if_neg hlong]
    cases disk.entry? (name :: parent) with
    | none => rfl
    | some entry =>
      cases entry with
      | directory => rfl
      | file object => cases slash <;> rfl

theorem read_of_walked {disk : Disk} {directory location : Location}
    (h : disk.locate directory path = .ok (.walked location)) :
    disk.read directory path = .error .isDirectory := by
  rw [read, h]
  rfl

theorem read_of_error {disk : Disk} {directory : Location} {e : IoError}
    (h : disk.locate directory path = .error e) : disk.read directory path = .error e := by
  rw [read, h]
  rfl

/-- The contents of a path with a last name depend on the directories of the way and on what is
seen at the name. -/
theorem Keeps.read {before after : Disk} (hkeeps : Keeps before after)
    {directory parent : Location} (h : path.Split way name idle)
    (hway : way.foldlM before.descend (origin directory path) = .ok parent)
    (hlook : after.look (name :: parent) = before.look (name :: parent)) :
    after.read directory path = before.read directory path := by
  have hdescend : after.descend parent name = before.descend parent name := by
    rw [descend_eq, descend_eq, hlook]
  rcases locate_of_split h with ⟨e, hnone⟩ | hlocate
  · rw [read_of_error (hnone before directory), read_of_error (hnone after directory)]
  have hbefore : before.locate directory path = before.ending parent name idle := by
    rw [hlocate, hway]
    rfl
  have hafter : after.locate directory path = before.ending parent name idle := by
    rw [hlocate, hkeeps.walk hway]
    change after.ending parent name idle = before.ending parent name idle
    rw [ending, ending, hdescend]
  by_cases hhere : Path.here ∈ idle
  · rw [ending, if_pos hhere] at hbefore hafter
    cases hreached : before.descend parent name with
    | error e =>
      rw [hreached] at hbefore hafter
      rw [read_of_error hbefore, read_of_error hafter]
    | ok reached =>
      rw [hreached] at hbefore hafter
      rw [read_of_walked hbefore, read_of_walked hafter]
  · rw [ending, if_neg hhere] at hbefore hafter
    rw [read_of_named hbefore, read_of_named hafter, hlook]

end Splits

/-! ### Changes -/

section Changes

variable {disk : Disk} {location : Location}

theorem entry?_of_ne_nil (h : location ≠ []) (disk : Disk) :
    disk.entry? location = Members.find? location disk.entries :=
  if_neg h

theorem entry?_setEntry (h : location ≠ []) {entry : Entry}
    (hentry : entry.Names disk.objects.length) (other : Location) :
    Disk.entry? (disk.setEntry location entry hentry) other =
      if other = location then some entry else disk.entry? other := by
  by_cases hroot : other = []
  · rw [hroot, if_neg (Ne.symm h)]
    rfl
  · rw [entry?_of_ne_nil hroot, entry?_of_ne_nil hroot, setEntry]
    by_cases heq : other = location
    · rw [if_pos heq, heq, Members.find?_insert_self]
    · rw [if_neg heq, Members.find?_insert_of_ne heq]

theorem entry?_addFile (disk : Disk) (h : location ≠ []) (contents : Bytes) (other : Location) :
    Disk.entry? (disk.addFile location contents) other =
      if other = location then some (.file disk.objects.length) else disk.entry? other :=
  entry?_setEntry h _ other

theorem entry?_eraseEntry (h : location ≠ []) (other : Location) :
    Disk.entry? (disk.eraseEntry location) other =
      if other = location then none else disk.entry? other := by
  by_cases hroot : other = []
  · rw [hroot, if_neg (Ne.symm h)]
    rfl
  · rw [entry?_of_ne_nil hroot, entry?_of_ne_nil hroot, eraseEntry]
    by_cases heq : other = location
    · rw [if_pos heq, heq, Members.find?_erase_self]
    · rw [if_neg heq, Members.find?_erase_of_ne heq]

/-- Every file that is seen has its object. -/
theorem object_lt {object : Nat} (h : disk.entry? location = some (.file object)) :
    object < disk.objects.length := by
  have hroot : location ≠ [] := by
    rintro rfl
    cases h
  rw [entry?_of_ne_nil hroot] at h
  exact disk.names _ (Members.mem_of_find? h)

theorem contents_setContents {object : Nat} (h : object < disk.objects.length) (contents : Bytes)
    (other : Nat) :
    (disk.setContents object contents).contents other =
      if other = object then contents else disk.contents other := by
  rw [Disk.contents, setContents, Disk.contents]
  by_cases heq : other = object
  · rw [if_pos heq, heq, List.getElem?_set_self h, Option.getD_some]
  · rw [if_neg heq, List.getElem?_set_ne (Ne.symm heq)]

theorem contents_allocate_of_lt {object : Nat} (h : object < disk.objects.length)
    (contents : Bytes) : (disk.allocate contents).contents object = disk.contents object := by
  rw [Disk.contents, allocate, Disk.contents, List.getElem?_append_left h]

theorem contents_allocate_length (contents : Bytes) :
    (disk.allocate contents).contents disk.objects.length = contents := by
  rw [Disk.contents, allocate, List.getElem?_concat_length, Option.getD_some]

/-- What is seen of one disk at a location is seen of another where the same entry stands and its
object has the same contents. -/
theorem look_congr {before after : Disk} (hentry : after.entry? location = before.entry? location)
    (hcontents : ∀ object, before.entry? location = some (.file object) →
      after.contents object = before.contents object) :
    after.look location = before.look location := by
  rw [look, look, hentry]
  cases hbefore : before.entry? location with
  | none => rfl
  | some entry =>
    cases entry with
    | directory => rfl
    | file object => exact congrArg (fun c => some (Sight.file c)) (hcontents object hbefore)

end Changes

end Disk

end TestJob
