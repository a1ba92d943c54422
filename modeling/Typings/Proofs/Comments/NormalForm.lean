import Typings.Proofs.Comments.Surrounded
import Typings.Proofs.Grouped.Sources
import Typings.Proofs.LineEnds.Comments
import Typings.Proofs.Lines.Files

/-!
# Lines of comments in normal form

What comments of sources say is in normal form (`CommentGroup.isNormal_lines`): no line has a newline in
it or a blank at its right end, and neither the first line nor the last one is blank. Any lines in normal
form are what line comments with these lines say (`CommentGroup.lines_ofLines`), so that writing them
again changes nothing. A group that is cut in two says what both parts say, with the blank lines at the
seam between them (`CommentGroup.lines_append`).

That the comments are those of sources is needed for a newline in a line comment: what stands before it is
a line of its own, and nothing trims that.
-/

namespace Typings

namespace CommentGroup

/-- No newline stands in the lines and no blank at the right end of any, and neither the first line nor
the last one is blank. -/
structure IsNormal (lines : List String) : Prop where
  newline : ∀ line ∈ lines, '\n' ∉ line.toList
  right : ∀ line ∈ lines, ∀ c ∈ line.toList.getLast?, Text.isBlank c = false
  first : ∀ line ∈ lines.head?, ∃ c ∈ line.toList, Text.isBlank c = false
  last : ∀ line ∈ lines.getLast?, ∃ c ∈ line.toList, Text.isBlank c = false

/-- Each comment of the group is a comment of some source. -/
def IsScanned (group : CommentGroup) : Prop :=
  ∀ text ∈ group.comments, ∃ source layout, Layout.ofSource source = .ok layout ∧
    text ∈ layout.comments.map Comment.text

/-- Each line as a line comment. -/
def ofLines (lines : List String) : CommentGroup := ⟨lines.map fun line => "// " ++ line⟩

/-- Every line of the comments, also the blank ones at both ends, which are empty without their blanks. -/
def allLines (group : CommentGroup) : List (List Char) := group.comments.flatMap said

/-- The number of blank lines at the seam of two groups: those that the first ends in and those that the
second begins with. They do not count if they are not between two lines that say something. -/
def blanksBetween (first second : CommentGroup) : Nat :=
  if first.lines = [] ∨ second.lines = [] then 0
  else emptyBehind first.allLines + emptyBefore second.allLines

variable {group first second : CommentGroup} {lines : List String}

/-! ## Comments of a source -/

/-- A newline of a comment parts two lines of what it says. -/
theorem newline_not_mem_stripMarkers {c : Char} {cs : List Char} {text : String}
    (form : Item.Form c cs (.comment text)) {piece : List Char} (mem : piece ∈ stripMarkers text.toList) :
    '\n' ∉ piece := by
  cases form with
  | lineComment slash =>
    intro newline
    have inside := mem_of_mem_stripMarkers mem newline
    rw [String.toList_ofList, slash] at inside
    rcases List.mem_cons.1 inside with same | behind
    · cases same
    · simpa using List.mem_takeWhile_imp behind
  | blockComment slash cut =>
    rw [String.toList_ofList, slash] at mem
    exact not_mem_splitOn mem

theorem newline_not_mem_allLines (scanned : group.IsScanned) : ∀ line ∈ group.allLines, '\n' ∉ line := by
  intro line mem newline
  obtain ⟨text, comment, said⟩ := List.mem_flatMap.1 mem
  obtain ⟨piece, stripped, rfl⟩ := List.mem_map.1 said
  obtain ⟨source, layout, laid, among⟩ := scanned text comment
  obtain ⟨m, collected, rfl⟩ := List.mem_map.1 among
  obtain ⟨rfl, -⟩ := Layout.ofItems_scan_of_ofSource laid
  obtain ⟨c, cs, rest, next⟩ := exists_next_of_mem_scan (Layout.exists_of_mem_comments collected).1
  exact newline_not_mem_stripMarkers (Item.form_of_next next) stripped
    (Text.mem_of_mem_dropRightWhile newline)

/-- A comment that ends with its line is a source of its own. -/
theorem mem_comments_of_isLineComment {text : String} (h : IsLineComment text) :
    ∃ source layout, Layout.ofSource source = .ok layout ∧ text ∈ layout.comments.map Comment.text := by
  refine ⟨text, Layout.ofItems .start none [.comment text], ?_, ?_⟩
  · rw [Layout.ofSource, scan_comment h]
  · rw [Layout.ofItems]
    split <;> exact List.mem_cons_self

/-! ## The pieces of a group as its lines -/

theorem pieces_eq_trimEmpty (group : CommentGroup) : group.pieces = trimEmpty group.allLines :=
  group.pieces_eq

theorem newline_not_mem_pieces (scanned : group.IsScanned) : ∀ piece ∈ group.pieces, '\n' ∉ piece := by
  rw [pieces_eq_trimEmpty]
  exact fun piece mem => newline_not_mem_allLines scanned piece (mem_of_mem_trimEmpty mem)

theorem lines_eq_pieces (apart : ∀ piece ∈ group.pieces, '\n' ∉ piece) :
    group.lines = group.pieces.map String.ofList := by
  by_cases none : group.pieces = []
  · simp [CommentGroup.lines, none]
  · rw [CommentGroup.lines, if_neg (mt List.isEmpty_iff.1 none), body, Text.splitLines_joinWith none apart]

theorem text_eq_pieces (group : CommentGroup) :
    group.text = String.ofList (group.pieces.flatMap (· ++ ['\n'])) := by
  by_cases none : group.pieces = []
  · simp [text, none]
  · rw [text, if_neg (mt List.isEmpty_iff.1 none), body, Text.joinWith_append_newline none]

/-- The text is the lines, each ended by a newline. -/
theorem text_eq_join (scanned : group.IsScanned) :
    group.text = String.join (group.lines.map (· ++ "\n")) := by
  rw [text_eq_pieces, lines_eq_pieces (newline_not_mem_pieces scanned), ← String.toList_inj,
    String.toList_ofList, String.toList_join, List.map_map, List.flatMap_map]
  refine List.flatMap_congr fun piece _ => ?_
  show piece ++ ['\n'] = (String.ofList piece ++ "\n").toList
  rw [String.toList_append, String.toList_ofList]
  rfl

/-! ## Normal form -/

theorem exists_not_isBlank {piece : List Char} (trimmed : Text.trimRight piece = piece)
    (some : piece ≠ []) : ∃ c ∈ piece, Text.isBlank c = false := by
  obtain ⟨c, final⟩ := Option.ne_none_iff_exists'.1 (mt List.getLast?_eq_none_iff.1 some)
  exact ⟨c, List.mem_of_getLast? final, Text.dropRightWhile_eq_self_iff.1 trimmed c final⟩

theorem isNormal_lines (scanned : group.IsScanned) : IsNormal group.lines := by
  have pieces := lines_eq_pieces (newline_not_mem_pieces scanned)
  have trimmed := group.trimmed_pieces.right
  have ends : HasEnds group.pieces := group.pieces_eq_trimEmpty ▸ hasEnds_trimEmpty _
  refine ⟨fun _ => not_mem_of_mem_lines, ?_, ?_, ?_⟩
  · intro line mem
    rw [pieces] at mem
    obtain ⟨piece, among, rfl⟩ := List.mem_map.1 mem
    rw [String.toList_ofList]
    exact Text.dropRightWhile_eq_self_iff.1 (trimmed piece among)
  · intro line mem
    rw [pieces, List.head?_map] at mem
    obtain ⟨piece, start, rfl⟩ := Option.map_eq_some_iff.1 mem
    rw [String.toList_ofList]
    exact exists_not_isBlank (trimmed piece (List.mem_of_head? start)) (ends.first piece start)
  · intro line mem
    rw [pieces, List.getLast?_map] at mem
    obtain ⟨piece, final, rfl⟩ := Option.map_eq_some_iff.1 mem
    rw [String.toList_ofList]
    exact exists_not_isBlank (trimmed piece (List.mem_of_getLast? final)) (ends.last piece final)

/-! ## Lines as comments -/

theorem said_spaced (line : String) : said ("// " ++ line) = [Text.trimRight line.toList] := by
  rw [said, String.toList_append]
  rfl

theorem allLines_ofLines (normal : IsNormal lines) : (ofLines lines).allLines = lines.map String.toList := by
  rw [allLines, ofLines, List.flatMap_map, List.map_eq_flatMap]
  refine List.flatMap_congr fun line mem => ?_
  rw [said_spaced, Text.trimRight, Text.dropRightWhile_eq_self_iff.2 (normal.right line mem)]

theorem IsNormal.hasEnds (normal : IsNormal lines) : HasEnds (lines.map String.toList) where
  first chars mem := by
    rw [List.head?_map] at mem
    obtain ⟨line, start, rfl⟩ := Option.map_eq_some_iff.1 mem
    obtain ⟨c, inside, -⟩ := normal.first line start
    exact List.ne_nil_of_mem inside
  last chars mem := by
    rw [List.getLast?_map] at mem
    obtain ⟨line, final, rfl⟩ := Option.map_eq_some_iff.1 mem
    obtain ⟨c, inside, -⟩ := normal.last line final
    exact List.ne_nil_of_mem inside

/-- Lines in normal form are what they say as line comments. -/
theorem lines_ofLines (normal : IsNormal lines) : (ofLines lines).lines = lines := by
  have pieces : (ofLines lines).pieces = lines.map String.toList := by
    rw [pieces_eq_trimEmpty, allLines_ofLines normal, trimEmpty_eq_self normal.hasEnds]
  have apart : ∀ piece ∈ (ofLines lines).pieces, '\n' ∉ piece := by
    rw [pieces]
    exact List.forall_mem_map.2 normal.newline
  rw [lines_eq_pieces apart, pieces, List.map_map]
  exact List.map_id'' (fun _ => String.ofList_toList) lines

theorem isScanned_ofLines (normal : IsNormal lines) : (ofLines lines).IsScanned := by
  intro text mem
  obtain ⟨line, among, rfl⟩ := List.mem_map.1 mem
  refine mem_comments_of_isLineComment ?_
  rw [IsLineComment, String.toList_append]
  exact ⟨⟨' ' :: line.toList, rfl⟩, List.not_mem_append (by decide) (normal.newline line among)⟩

/-! ## Two groups -/

theorem pieces_append (scanned : first.IsScanned) (scanned' : second.IsScanned) :
    (CommentGroup.mk (first.comments ++ second.comments)).pieces =
      first.pieces ++ List.replicate (blanksBetween first second) [] ++ second.pieces := by
  have silent : first.lines = [] ↔ first.pieces = [] := by
    rw [lines_eq_pieces (newline_not_mem_pieces scanned), List.map_eq_nil_iff]
  have silent' : second.lines = [] ↔ second.pieces = [] := by
    rw [lines_eq_pieces (newline_not_mem_pieces scanned'), List.map_eq_nil_iff]
  rw [pieces_eq_trimEmpty, allLines, List.flatMap_append, ← allLines, ← allLines, trimEmpty_append,
    ← pieces_eq_trimEmpty, ← pieces_eq_trimEmpty]
  simp only [blanksBetween, silent, silent']
  split
  · next none => simp [none]
  split
  · next none => simp [none]
  · next some some' => simp [some, some']

/-- What two groups say one behind the other. -/
theorem lines_append (scanned : first.IsScanned) (scanned' : second.IsScanned) :
    (CommentGroup.mk (first.comments ++ second.comments)).lines =
      first.lines ++ List.replicate (blanksBetween first second) "" ++ second.lines := by
  have both : (CommentGroup.mk (first.comments ++ second.comments)).IsScanned :=
    List.forall_mem_append.2 ⟨scanned, scanned'⟩
  rw [lines_eq_pieces (newline_not_mem_pieces both), lines_eq_pieces (newline_not_mem_pieces scanned),
    lines_eq_pieces (newline_not_mem_pieces scanned'), pieces_append scanned scanned', List.map_append,
    List.map_append, List.map_replicate]

/-- What comments of sources say is in normal form, the text is its lines, and as line comments the lines
say the same. Where the group is cut in two, the lines are cut as well, and only the blank lines between
the two parts are lost. -/
theorem lines_normal (scanned : group.IsScanned) :
    IsNormal group.lines ∧
    group.text = String.join (group.lines.map (· ++ "\n")) ∧
    (ofLines group.lines).IsScanned ∧ (ofLines group.lines).lines = group.lines ∧
    ∀ first second : CommentGroup, group.comments = first.comments ++ second.comments →
      group.lines = first.lines ++ List.replicate (blanksBetween first second) "" ++ second.lines := by
  have normal := isNormal_lines scanned
  refine ⟨normal, text_eq_join scanned, isScanned_ofLines normal, lines_ofLines normal, ?_⟩
  intro first second cut
  rw [IsScanned, cut] at scanned
  obtain ⟨before, behind⟩ := List.forall_mem_append.1 scanned
  have joined := lines_append before behind
  rwa [← cut] at joined

/-- A block comment with blanks and blank lines, cut off from a line comment that says nothing. -/
theorem lines_normal_cart :
    let block := "/*\n Cart.\t\n\n*/"
    let group : CommentGroup := ⟨[block, "//", "//  A list. "]⟩
    group.IsScanned ∧ group.lines = [" Cart.", "", "", "", " A list."] ∧ IsNormal group.lines ∧
    group.text = String.join (group.lines.map (· ++ "\n")) ∧
    (ofLines group.lines).comments = ["//  Cart.", "// ", "// ", "// ", "//  A list."] ∧
    (ofLines group.lines).IsScanned ∧ (ofLines group.lines).lines = group.lines ∧
    blanksBetween ⟨[block]⟩ ⟨["//", "//  A list. "]⟩ = 3 ∧
    group.lines = (CommentGroup.mk [block]).lines ++ List.replicate 3 "" ++
      (CommentGroup.mk ["//", "//  A list. "]).lines := by
  intro block group
  have texts : (Layout.ofSource (block ++ "\n//\n//  A list. ")).toOption.map
      (fun layout => layout.comments.map Comment.text) = some group.comments := by
    decide +kernel
  obtain ⟨layout, laid, texts⟩ := exists_of_toOption_map texts
  have scanned : group.IsScanned := fun text mem => ⟨_, layout, laid, texts ▸ mem⟩
  obtain ⟨normal, text, rescanned, again, cut⟩ := lines_normal scanned
  have seam : blanksBetween ⟨[block]⟩ ⟨["//", "//  A list. "]⟩ = 3 := by decide +kernel
  exact ⟨scanned, by decide +kernel, normal, text, by decide +kernel, rescanned, again, seam,
    seam ▸ cut ⟨[block]⟩ ⟨["//", "//  A list. "]⟩ rfl⟩

end CommentGroup

end Typings
