import Mathlib
import TestJob.Path

/-!
Paths and their segments. A path is its segments with a slash between each two
(`ofSegments_segments`), and any segments without slashes are those of a path
(`segments_ofSegments`). A path with a last name is a way to the name, the name, and idle segments
after it (`Split`, `fileName?_eq_some_iff`); another name in its place keeps the way, up to idle
segments at its end (`split_withFileName`). What follows the last dot of the last name is the
extension (`extension?_eq_some_iff`).
-/

namespace TestJob.Path

/-! ### Segments -/

theorem segments_cons (b : UInt8) (bytes : Bytes) :
    segments ⟨b :: bytes⟩ = prepend b (segments ⟨bytes⟩) :=
  rfl

theorem prepend_separator (first : Bytes) (rest : List Bytes) :
    prepend separator (first :: rest) = [] :: first :: rest := by
  rw [prepend, if_pos rfl]

theorem prepend_of_ne {b : UInt8} (h : b ≠ separator) (first : Bytes) (rest : List Bytes) :
    prepend b (first :: rest) = (b :: first) :: rest := by
  rw [prepend, if_neg h]

theorem segments_ne_nil (p : Path) : p.segments ≠ [] := by
  obtain ⟨bytes⟩ := p
  cases bytes with
  | nil => exact List.cons_ne_nil _ _
  | cons b bytes =>
    rw [segments_cons]
    cases segments ⟨bytes⟩ with
    | nil => exact List.cons_ne_nil _ _
    | cons first rest =>
      by_cases h : b = separator
      · rw [h, prepend_separator]
        exact List.cons_ne_nil _ _
      · rw [prepend_of_ne h]
        exact List.cons_ne_nil _ _

/-- No segment holds a slash. -/
theorem separator_not_mem_segments :
    ∀ bytes : Bytes, ∀ segment ∈ segments ⟨bytes⟩, separator ∉ segment
  | [], segment, hsegment => by
    rw [List.mem_singleton.1 hsegment]
    exact List.not_mem_nil
  | b :: bytes, segment, hsegment => by
    have ih := separator_not_mem_segments bytes
    obtain ⟨first, rest, hsegments⟩ := List.exists_cons_of_ne_nil (segments_ne_nil ⟨bytes⟩)
    rw [hsegments] at ih
    rw [segments_cons, hsegments] at hsegment
    by_cases h : b = separator
    · rw [h, prepend_separator] at hsegment
      rcases List.mem_cons.1 hsegment with rfl | hsegment
      · exact List.not_mem_nil
      · exact ih segment hsegment
    · rw [prepend_of_ne h] at hsegment
      rcases List.mem_cons.1 hsegment with rfl | hsegment
      · rw [List.mem_cons, not_or]
        exact ⟨fun heq => h heq.symm, ih first List.mem_cons_self⟩
      · exact ih segment (List.mem_cons_of_mem _ hsegment)

theorem foldr_prepend {rest : List Bytes} :
    ∀ {segment first : Bytes}, separator ∉ segment →
      segment.foldr prepend (first :: rest) = (segment ++ first) :: rest
  | [], first, _ => rfl
  | b :: segment, first, h => by
    rw [List.mem_cons, not_or] at h
    rw [List.foldr_cons, foldr_prepend h.2, prepend_of_ne (Ne.symm h.1), List.cons_append]

/-- Segments without slashes are those of the path that they make. -/
theorem segments_ofSegments :
    ∀ {parts : List Bytes}, parts ≠ [] → (∀ part ∈ parts, separator ∉ part) →
      (ofSegments parts).segments = parts
  | [part], _, h => by
    have hpart : part.foldr prepend [[]] = [part ++ []] :=
      foldr_prepend (h part List.mem_cons_self)
    rw [List.append_nil] at hpart
    rw [ofSegments, List.intercalate_singleton]
    exact hpart
  | part :: second :: rest, _, h => by
    obtain ⟨hpart, hrest⟩ := List.forall_mem_cons.1 h
    have ih : (List.intercalate [separator] (second :: rest)).foldr prepend [[]] =
        second :: rest := segments_ofSegments (List.cons_ne_nil _ _) hrest
    rw [ofSegments, segments, List.intercalate_cons_cons, List.foldr_append, ih,
      List.foldr_append, List.foldr_cons, List.foldr_nil, prepend_separator, foldr_prepend hpart,
      List.append_nil]

theorem intercalate_prepend (b : UInt8) : ∀ {parts : List Bytes}, parts ≠ [] →
    List.intercalate [separator] (prepend b parts) = b :: List.intercalate [separator] parts
  | first :: rest, _ => by
    by_cases h : b = separator
    · rw [h, prepend_separator, List.intercalate_cons_cons]
      rfl
    · rw [prepend_of_ne h]
      cases rest with
      | nil => rw [List.intercalate_singleton, List.intercalate_singleton]
      | cons second rest =>
        rw [List.intercalate_cons_cons, List.intercalate_cons_cons]
        rfl

/-- A path is made of its segments. -/
theorem ofSegments_segments (p : Path) : ofSegments p.segments = p := by
  obtain ⟨bytes⟩ := p
  induction bytes with
  | nil => rfl
  | cons b bytes ih =>
    rw [ofSegments, Path.mk.injEq] at ih ⊢
    rw [segments_cons, intercalate_prepend b (segments_ne_nil _), ih]

/-- A path begins with a slash when its first segment is empty and not its only one. -/
theorem head?_eq_separator_iff (p : Path) :
    p.bytes.head? = some separator ↔ ∃ second rest, p.segments = [] :: second :: rest := by
  obtain ⟨bytes⟩ := p
  cases bytes with
  | nil => exact iff_of_false (by simp) (by simp [segments])
  | cons b bytes =>
    obtain ⟨first, rest, hsegments⟩ := List.exists_cons_of_ne_nil (segments_ne_nil ⟨bytes⟩)
    rw [segments_cons, hsegments, List.head?_cons, Option.some.injEq]
    by_cases h : b = separator
    · rw [h, prepend_separator]
      exact iff_of_true rfl ⟨first, rest, rfl⟩
    · rw [prepend_of_ne h]
      exact iff_of_false h (by simp)

/-! ### The last name -/

/-- A path as the way to its last name, the name, and idle segments after it. -/
structure Split (p : Path) (way : List Bytes) (name : Bytes) (idle : List Bytes) : Prop where
  segments_eq : p.segments = way ++ name :: idle
  not_idle : isIdle name = false
  ne_above : name ≠ above
  idle_end : ∀ segment ∈ idle, isIdle segment = true

/-- What is dropped from the end of the segments is idle. -/
theorem exists_idle_end (parts : List Bytes) :
    ∃ idle, parts = dropIdleEnd parts ++ idle ∧ ∀ segment ∈ idle, isIdle segment = true := by
  cases parts with
  | nil => exact ⟨[], rfl, by simp⟩
  | cons first rest =>
    refine ⟨(rest.reverse.takeWhile isIdle).reverse, ?_, fun segment hsegment => ?_⟩
    · rw [dropIdleEnd, List.cons_append, ← List.reverse_append, List.takeWhile_append_dropWhile,
        List.reverse_reverse]
    · exact List.mem_takeWhile_imp (List.mem_reverse.1 hsegment)

theorem head?_dropIdleEnd (parts : List Bytes) : (dropIdleEnd parts).head? = parts.head? := by
  cases parts <;> rfl

/-- A path with a last name is split at it. -/
theorem split_of_fileName? {p : Path} {name : Bytes} (h : p.fileName? = some name) :
    ∃ idle, Split p (dropIdleEnd p.segments).dropLast name idle := by
  rw [fileName?, Option.filter_eq_some_iff] at h
  obtain ⟨hlast, hname⟩ := h
  rw [Bool.and_eq_true, Bool.not_eq_true', decide_eq_true_eq] at hname
  obtain ⟨idle, hsegments, hidle⟩ := exists_idle_end p.segments
  refine ⟨idle, ?_, hname.1, hname.2, hidle⟩
  rw [List.append_cons, List.dropLast_append_getLast? name hlast]
  exact hsegments

theorem dropIdleEnd_append {way idle : List Bytes} {name : Bytes} (hname : isIdle name = false)
    (hidle : ∀ segment ∈ idle, isIdle segment = true) :
    dropIdleEnd (way ++ name :: idle) = way ++ [name] := by
  have hreverse : ∀ segment ∈ idle.reverse, isIdle segment = true := fun segment hsegment =>
    hidle segment (List.mem_reverse.1 hsegment)
  cases way with
  | nil =>
    rw [List.nil_append, dropIdleEnd, List.dropWhile_eq_nil_iff.2 hreverse]
    rfl
  | cons first way =>
    rw [List.cons_append, dropIdleEnd, List.reverse_append, List.reverse_cons, List.append_assoc,
      List.dropWhile_append_of_pos hreverse, List.singleton_append,
      List.dropWhile_cons_of_neg (by simp [hname]), List.reverse_cons, List.reverse_reverse,
      List.cons_append]

/-- The last name of a path is the name that it can be split at. -/
theorem fileName?_eq_some_iff {p : Path} {name : Bytes} :
    p.fileName? = some name ↔ ∃ way idle, Split p way name idle := by
  constructor
  · intro h
    obtain ⟨idle, hsplit⟩ := split_of_fileName? h
    exact ⟨_, idle, hsplit⟩
  · rintro ⟨way, idle, hsegments, hname, habove, hidle⟩
    rw [fileName?, hsegments, dropIdleEnd_append hname hidle, List.getLast?_concat]
    simp [hname, habove]

theorem dot_not_mem_takeWhile (bytes : Bytes) : dot ∉ bytes.takeWhile (· ≠ dot) := by
  intro hdot
  simpa using List.mem_takeWhile_imp hdot

/-- The extension follows the last dot of the last name, unless the name begins with this dot. -/
theorem extension?_eq_some_iff {p : Path} {ending : Bytes} :
    p.extension? = some ending ↔ ∃ stem, p.fileName? = some (stem ++ dot :: ending) ∧
      stem ≠ [] ∧ dot ∉ ending := by
  constructor
  · intro h
    rw [extension?, Option.bind_eq_bind] at h
    obtain ⟨name, hfile, hname⟩ := Option.bind_eq_some_iff.1 h
    have hsplit := List.takeWhile_append_dropWhile (p := (· ≠ dot)) (l := name.reverse)
    dsimp only at hname
    rcases hdrop : name.reverse.dropWhile (· ≠ dot) with _ | ⟨first, _ | ⟨second, rest⟩⟩
    · rw [hdrop] at hname
      cases hname
    · rw [hdrop] at hname
      cases hname
    · rw [hdrop] at hname hsplit
      obtain rfl := Option.some.inj hname
      obtain rfl : first = dot := by
        have hfirst := List.head?_dropWhile_not (· ≠ dot) name.reverse
        rw [hdrop] at hfirst
        simpa using hfirst
      refine ⟨(second :: rest).reverse, hfile.trans (congrArg some ?_),
        List.reverse_ne_nil_iff.2 (List.cons_ne_nil _ _), ?_⟩
      · have hwhole := congrArg List.reverse hsplit.symm
        rwa [List.reverse_reverse, List.reverse_append, List.reverse_cons, List.append_assoc]
          at hwhole
      · exact fun hdot => dot_not_mem_takeWhile _ (List.mem_reverse.1 hdot)
  · rintro ⟨stem, hfile, hstem, hdot⟩
    have hending : ∀ b ∈ ending.reverse, (decide (b ≠ dot)) = true := by
      intro b hb
      rw [decide_eq_true_eq]
      rintro rfl
      exact hdot (List.mem_reverse.1 hb)
    obtain ⟨last, rest, hreverse⟩ := List.exists_cons_of_ne_nil (List.reverse_ne_nil_iff.2 hstem)
    have hback : (stem ++ dot :: ending).reverse = ending.reverse ++ dot :: last :: rest := by
      rw [List.reverse_append, List.reverse_cons, hreverse, List.append_assoc]
      rfl
    rw [extension?, hfile, Option.bind_eq_bind, Option.bind_some, hback]
    dsimp only
    rw [List.dropWhile_append_of_pos hending, List.dropWhile_cons_of_neg (by simp),
      List.takeWhile_append_of_pos hending, List.takeWhile_cons_of_neg (by simp), List.append_nil,
      List.reverse_reverse]

theorem ne_nil_of_not_idle {name : Bytes} (h : isIdle name = false) : name ≠ [] := by
  rintro rfl
  exact absurd h (by decide)

/-- The path with another name goes the same way, and ends in the name. -/
theorem split_withFileName {p : Path} {name other : Bytes} {idle : List Bytes}
    (hsplit : Split p (dropIdleEnd p.segments).dropLast name idle) (hslash : separator ∉ other)
    (hidle : isIdle other = false) (habove : other ≠ above) :
    Split (p.withFileName other) (dropIdleEnd (dropIdleEnd p.segments).dropLast) other [] := by
  refine ⟨?_, hidle, habove, fun _ h => absurd h List.not_mem_nil⟩
  refine segments_ofSegments (by simp) fun part hpart => ?_
  rcases List.mem_append.1 hpart with hpart | hpart
  · obtain ⟨rest, hway, _⟩ := exists_idle_end (dropIdleEnd p.segments).dropLast
    refine separator_not_mem_segments p.bytes part ?_
    change part ∈ p.segments
    rw [hsplit.segments_eq, hway]
    exact List.mem_append_left _ (List.mem_append_left _ hpart)
  · rwa [List.mem_singleton.1 hpart]

/-- Paths whose ways begin alike begin with a slash alike. -/
theorem Split.head?_eq_separator_iff {p q : Path} {way other : List Bytes} {name last : Bytes}
    {idle rest : List Bytes} (hp : Split p way name idle) (hq : Split q other last rest)
    (hway : way.head? = other.head?) :
    p.bytes.head? = some separator ↔ q.bytes.head? = some separator := by
  rw [Path.head?_eq_separator_iff, Path.head?_eq_separator_iff, hp.segments_eq, hq.segments_eq]
  cases way with
  | nil =>
    cases other with
    | nil =>
      have hname := ne_nil_of_not_idle hp.not_idle
      have hlast := ne_nil_of_not_idle hq.not_idle
      exact iff_of_false (by simp [hname]) (by simp [hlast])
    | cons first rest => exact absurd hway (by simp)
  | cons first way =>
    cases other with
    | nil => exact absurd hway (by simp)
    | cons second other =>
      obtain rfl : first = second := Option.some.inj hway
      have hlong : ∀ (before : List Bytes) (middle : Bytes) (after : List Bytes),
          (∃ second rest, first :: before ++ middle :: after = [] :: second :: rest) ↔
            first = [] := by
        intro before middle after
        cases before <;> simp
      rw [hlong, hlong]

end TestJob.Path
