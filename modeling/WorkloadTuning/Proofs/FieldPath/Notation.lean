import WorkloadTuning.FieldPath.Basic
import WorkloadTuning.Proofs.Outcome
import WorkloadTuning.Proofs.Text.Cut

/-! Paths and their texts. Field names are escaped, but what marks a wildcard or an element match is
not, and neither is anything inside a match. So some paths have a text that is read as another path,
or not at all; all others, and among them every path that was read, come back from their text. -/

namespace WorkloadTuning

/-! ### Escapes -/

namespace Pointer

theorem escape_cons (c : Char) (rest : List Char) :
    escape (c :: rest) =
      (if c = '~' then ['~', '0'] else if c = '/' then ['~', '1'] else [c]) ++ escape rest :=
  List.flatMap_cons

theorem not_mem_escape (name : List Char) : '/' ∉ escape name := by
  rw [escape, List.mem_flatMap]
  rintro ⟨c, -, hc⟩
  split at hc
  · simp at hc
  · split at hc
    · simp at hc
    · next hslash => exact hslash (List.mem_singleton.mp hc).symm

/-- Escapes start with a tilde, so any other first character stands for itself. -/
theorem eq_cons_of_escape {name rest : List Char} {c : Char} (hc : c ≠ '~')
    (h : escape name = c :: rest) : ∃ later, name = c :: later ∧ rest = escape later := by
  cases name with
  | nil => cases h
  | cons d later =>
    rw [escape_cons] at h
    split at h
    · exact absurd (List.cons.inj h).1.symm hc
    · split at h
      · exact absurd (List.cons.inj h).1.symm hc
      · obtain ⟨rfl, rfl⟩ := List.cons.inj h
        exact ⟨later, rfl, rfl⟩

end Pointer

namespace FieldPath

theorem unescape_cons {c : Char} (h : c ≠ '~') (rest : List Char) :
    unescape (c :: rest) = c :: unescape rest := by
  rw [unescape]
  all_goals simp [h]

theorem unescape_escape (name : List Char) : unescape (Pointer.escape name) = name := by
  induction name with
  | nil => rfl
  | cons c rest ih =>
    rw [Pointer.escape_cons]
    split
    · next htilde =>
      subst htilde
      exact congrArg ('~' :: ·) ih
    · next htilde =>
      split
      · next hslash =>
        subst hslash
        exact congrArg ('/' :: ·) ih
      · rw [List.singleton_append, unescape_cons htilde, ih]

theorem eq_nil_of_unescape {piece : List Char} (h : unescape piece = []) : piece = [] := by
  fun_cases unescape piece with
  | case1 => rfl
  | case2 later => cases h
  | case3 later => cases h
  | case4 d later hzero hone =>
    rw [unescape.eq_4 d later hzero hone] at h
    cases h

/-- A first character that no escape stands for is there already in what is read. -/
theorem eq_cons_of_unescape {piece rest : List Char} {c : Char} (htilde : c ≠ '~')
    (hslash : c ≠ '/') (h : unescape piece = c :: rest) :
    ∃ later, piece = c :: later ∧ rest = unescape later := by
  fun_cases unescape piece with
  | case1 => cases h
  | case2 later => exact absurd (List.cons.inj h).1.symm htilde
  | case3 later => exact absurd (List.cons.inj h).1.symm hslash
  | case4 d later hzero hone =>
    rw [unescape.eq_4 d later hzero hone] at h
    obtain ⟨rfl, rfl⟩ := List.cons.inj h
    exact ⟨later, rfl, rfl⟩

end FieldPath

/-! ### Steps -/

/-- The text of the step is not taken for that of another step, or of several. -/
def Segment.IsWritable : Segment → Prop
  | field name => name ≠ "*" ∧ name.toList.head? ≠ some '['
  | element key value => key ≠ "" ∧ '=' ∉ key.toList ∧ '/' ∉ key.toList ∧ '/' ∉ value.toList
  | wildcard => True

namespace FieldPath

theorem element_toList (key value : String) : (Segment.element key value).toText.toList =
    '[' :: (key.toList ++ '=' :: value.toList ++ [']']) := by
  simp [Segment.toText, String.toList_append]

theorem elementOf?_concat (body : List Char) (last : Char) :
    elementOf? (body ++ [last]) = if last = ']' then
      (Text.cut? ['='] body).bind fun parts => if parts.1 = [] then none
        else some (.element (String.ofList parts.1) (String.ofList parts.2))
    else none := by
  rw [elementOf?, List.getLast?_concat, List.dropLast_concat]
  simp

theorem elementOf?_eq_some {inner : List Char} {segment : Segment} :
    elementOf? inner = some segment ↔ ∃ key value : List Char,
      inner = key ++ '=' :: value ++ [']'] ∧ key ≠ [] ∧ '=' ∉ key ∧
        segment = .element (String.ofList key) (String.ofList value) := by
  constructor
  · intro h
    rcases List.eq_nil_or_concat inner with rfl | ⟨body, last, rfl⟩
    · cases h
    · rw [List.concat_eq_append, elementOf?_concat] at h
      split at h
      · next hlast =>
        obtain ⟨⟨key, value⟩, hcut, h⟩ := Option.bind_eq_some_iff.mp h
        split at h
        · cases h
        · next hne =>
          obtain rfl := Option.some.inj h
          refine ⟨key, value, ?_, hne, Text.not_mem_of_cut? hcut, rfl⟩
          rw [List.concat_eq_append, hlast, Text.cut?_eq hcut, List.append_assoc key,
            List.singleton_append]
      · cases h
  · rintro ⟨key, value, rfl, hne, hkey, rfl⟩
    have hcut : Text.cut? ['='] (key ++ '=' :: value) = some (key, value) := by
      simpa using Text.cut?_append [] value hkey
    rw [elementOf?_concat, if_pos rfl, hcut, Option.bind_some, if_neg hne]

/-- What is read from a piece between slashes can be written again. -/
theorem isWritable_of_segmentOf? {piece : List Char} {segment : Segment} (hslash : '/' ∉ piece)
    (h : segmentOf? piece = some segment) : segment.IsWritable := by
  unfold segmentOf? at h
  split at h
  · obtain rfl := Option.some.inj h
    trivial
  · next inner =>
    obtain ⟨key, value, rfl, hne, hkey, rfl⟩ := elementOf?_eq_some.mp h
    have hslashes : '/' ∉ key ∧ '/' ∉ value := by
      simp only [List.mem_cons, List.mem_append] at hslash
      tauto
    refine ⟨?_, ?_, ?_, ?_⟩
    · simpa using hne
    · simpa using hkey
    · simpa using hslashes.1
    · simpa using hslashes.2
  · next hwildcard hbracket =>
    obtain rfl := Option.some.inj h
    constructor
    · intro hstar
      have hchars : unescape piece = ['*'] := by
        rw [← String.toList_ofList (l := unescape piece), hstar]
        rfl
      obtain ⟨later, rfl, hnil⟩ := eq_cons_of_unescape (by decide) (by decide) hchars
      obtain rfl := eq_nil_of_unescape hnil.symm
      exact hwildcard rfl
    · rw [String.toList_ofList]
      intro hhead
      obtain ⟨rest, hrest⟩ := List.head?_eq_some_iff.mp hhead
      obtain ⟨later, rfl, -⟩ := eq_cons_of_unescape (by decide) (by decide) hrest
      exact hbracket later rfl

/-- A step that can be written is read from its text. -/
theorem segmentOf?_toText {segment : Segment} (h : segment.IsWritable) :
    segmentOf? segment.toText.toList = some segment ∧ '/' ∉ segment.toText.toList := by
  cases segment with
  | field name =>
    obtain ⟨hstar, hbracket⟩ := h
    have htext : (Segment.field name).toText.toList = Pointer.escape name.toList :=
      String.toList_ofList
    rw [htext]
    refine ⟨?_, Pointer.not_mem_escape _⟩
    unfold segmentOf?
    split
    · next heq =>
      obtain ⟨later, hname, hnil⟩ := Pointer.eq_cons_of_escape (by decide) heq
      have hlater : later = [] := by rw [← unescape_escape later, ← hnil, unescape]
      subst hlater
      exact absurd (String.toList_inj.mp hname) hstar
    · next inner heq =>
      obtain ⟨later, hname, -⟩ := Pointer.eq_cons_of_escape (by decide) heq
      exact absurd (by rw [hname]; rfl) hbracket
    · rw [unescape_escape, String.ofList_toList]
  | element key value =>
    obtain ⟨hne, hkey, hslashes⟩ := h
    rw [element_toList]
    constructor
    · refine elementOf?_eq_some.mpr ⟨key.toList, value.toList, rfl, ?_, hkey, ?_⟩
      · simpa using hne
      · rw [String.ofList_toList, String.ofList_toList]
    · have hmarks : '/' ≠ '[' ∧ '/' ≠ '=' ∧ '/' ≠ ']' := by decide
      simp only [List.mem_cons, List.mem_append, List.not_mem_nil]
      tauto
  | wildcard => exact ⟨rfl, by decide⟩

/-! ### Paths -/

theorem segmentsOf_eq_ok {text : String} {parts : List (List Char)} {segments : List Segment} :
    segmentsOf text parts = .ok segments ↔
      List.Forall₂ (fun piece segment => segmentOf? piece = some segment) parts segments := by
  induction parts generalizing segments with
  | nil =>
    rw [segmentsOf, List.forall₂_nil_left_iff]
    constructor
    · intro h
      exact (Except.ok.inj h).symm
    · rintro rfl
      rfl
  | cons piece rest ih =>
    rw [List.forall₂_cons_left_iff]
    cases hpiece : segmentOf? piece with
    | none => simp [segmentsOf, hpiece]
    | some segment =>
      simp only [segmentsOf, hpiece, map_eq_ok, ih]
      constructor
      · rintro ⟨later, hlater, rfl⟩
        exact ⟨segment, later, rfl, hlater, rfl⟩
      · rintro ⟨_, later, ⟨⟩, hlater, rfl⟩
        exact ⟨later, hlater, rfl⟩

/-- A text is read piece by piece. -/
theorem parse_eq_ok {text : String} {path : FieldPath} :
    parse text = .ok path ↔ text = "" ∧ path = root ∨
      ∃ rest, text.toList = '/' :: rest ∧ List.Forall₂
        (fun piece segment => segmentOf? piece = some segment) (Text.pieces '/' rest)
        path.segments := by
  unfold parse
  split
  · next hnil =>
    have hempty : text = "" := String.toList_eq_nil_iff.mp hnil
    simp [hempty, eq_comm]
  · next rest hrest =>
    have hne : text ≠ "" := by
      rintro rfl
      cases hrest
    simp only [map_eq_ok, segmentsOf_eq_ok, hrest, hne, false_and, false_or]
    constructor
    · rintro ⟨segments, hall, rfl⟩
      exact ⟨rest, rfl, hall⟩
    · rintro ⟨_, ⟨⟩, hall⟩
      exact ⟨path.segments, hall, rfl⟩
  · next hnil hslash =>
    have hne : text ≠ "" := by
      rintro rfl
      exact hnil rfl
    have hnone : ¬ ∃ rest, text.toList = '/' :: rest ∧ List.Forall₂
        (fun piece segment => segmentOf? piece = some segment) (Text.pieces '/' rest)
        path.segments := fun ⟨rest, hrest, _⟩ => hslash rest hrest
    simp [hne, hnone]

theorem toText_toList (path : FieldPath) :
    path.toText.toList = path.segments.flatMap fun segment => '/' :: segment.toText.toList := by
  rw [toText, String.toList_join, List.flatMap_map]
  refine List.flatMap_congr fun segment _ => ?_
  rw [String.toList_append]
  rfl

/-- What is read can be written again. -/
theorem isWritable_of_parse {text : String} {path : FieldPath} (h : parse text = .ok path) :
    ∀ segment ∈ path.segments, segment.IsWritable := by
  rcases parse_eq_ok.mp h with ⟨-, rfl⟩ | ⟨rest, -, hall⟩
  · exact fun _ hmem => absurd hmem List.not_mem_nil
  · intro segment hmem
    obtain ⟨piece, hpiece, hread⟩ := exists_left_of_mem hall hmem
    exact isWritable_of_segmentOf? (Text.not_mem_of_mem_pieces hpiece) hread

/-- What can be written is read from its text. -/
theorem parse_toText_of_isWritable {path : FieldPath}
    (h : ∀ segment ∈ path.segments, segment.IsWritable) : parse path.toText = .ok path := by
  obtain ⟨segments⟩ := path
  rw [parse_eq_ok]
  cases segments with
  | nil => exact .inl ⟨rfl, rfl⟩
  | cons first others =>
    have hread : ∀ segment ∈ first :: others, segmentOf? segment.toText.toList = some segment ∧
        '/' ∉ segment.toText.toList := fun segment hmem => segmentOf?_toText (h segment hmem)
    let texts := others.map fun segment => segment.toText.toList
    have htext : (toText ⟨first :: others⟩).toList =
        '/' :: (first.toText.toList ++ texts.flatMap ('/' :: ·)) := by
      rw [toText_toList, List.flatMap_cons, List.flatMap_map, List.cons_append]
    have hpieces : Text.pieces '/' (first.toText.toList ++ texts.flatMap ('/' :: ·)) =
        (first :: others).map fun segment => segment.toText.toList := by
      refine Text.pieces_flatMap ?_
      rw [← List.map_cons (f := fun segment : Segment => segment.toText.toList)]
      exact List.forall_mem_map.mpr fun segment hmem => (hread segment hmem).2
    refine .inr ⟨_, htext, ?_⟩
    rw [hpieces, List.forall₂_map_left_iff, List.forall₂_same]
    exact fun segment hmem => (hread segment hmem).1

/-- A path comes back from its text exactly if all its steps can be written, and a path that was
read always does. -/
theorem parse_toText :
    (∀ path : FieldPath, parse path.toText = .ok path ↔
      ∀ segment ∈ path.segments, segment.IsWritable) ∧
    ∀ text path, parse text = .ok path →
      (∀ segment ∈ path.segments, segment.IsWritable) ∧ parse path.toText = .ok path := by
  refine ⟨fun path => ⟨isWritable_of_parse, parse_toText_of_isWritable⟩, fun text path h => ?_⟩
  have hwritable := isWritable_of_parse h
  exact ⟨hwritable, parse_toText_of_isWritable hwritable⟩

-- A field of the name of the wildcard is written like it.
example : parse (toText ⟨[.field "a/b", .field "*"]⟩) = .ok ⟨[.field "a/b", .wildcard]⟩ := by decide

end FieldPath

end WorkloadTuning
