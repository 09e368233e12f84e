import LoosePatch.Proofs.Engine.Shown
import LoosePatch.Proofs.Tool.Plan
import LoosePatch.Tool.Read

/-!
The read tool and edits by what it shows: a page holds the rows of its lines, pages that follow one
another hold the whole file, and a reference in a row is good for an edit (`read_agrees_with_edits`).
-/

namespace LoosePatch.Tool

variable {ws : Workspace} {args : Fields} {path : String} {target : Text × Place} {content : ByteArray}
  {mode : Nat} {image : Image} {lines : List Text} {start : Int} {limit : Option Int} {first : Nat}

/-! ## Pages -/

/-- The rows of a page. -/
def pageRows (lines : List Text) (start : Int) (limit : Option Int) : List Text :=
  let (first, last) := pageBounds lines.length start limit
  (List.range' first (last + 1 - first)).map (LineRef.shownRow lines)

/-- The rows of pages that follow one another: each starts where the one before ends. -/
def pagesFrom (lines : List Text) : (first : Nat) → (limits : List Nat) → List Text
  | _, [] => []
  | first, limit :: limits => pageRows lines first (some limit) ++ pagesFrom lines (first + limit) limits

theorem page_eq (hne : lines ≠ []) (hstart : start ≤ lines.length)
    (hlimit : ∀ l, limit = some l → 1 ≤ l) (path : Text) :
    page lines path start limit = .ok (Text.unlines
      (pageHeader (pageBounds lines.length start limit).1 (pageBounds lines.length start limit).2
        lines.length path :: pageRows lines start limit)) := by
  have hpos := List.length_pos_iff.mpr hne
  have hfirst : (pageBounds lines.length start limit).1 = (max start 1).toNat := by
    cases limit <;> rfl
  have hlast : (pageBounds lines.length start limit).2 ≤ lines.length := by
    cases limit with
    | none => exact le_rfl
    | some l => exact Nat.min_le_left _ _
  have hsome : ¬(lines.length = 0 ∨ limit = some 0) := by
    rintro (hzero | hzero)
    · omega
    · exact absurd (hlimit 0 hzero) (by decide)
  have hinside : ¬lines.length < (pageBounds lines.length start limit).1 := by
    rw [hfirst]
    omega
  simp only [page, if_neg hsome, if_neg hinside, pageRows]
  rw [LineRef.rows_eq (by rw [hfirst]; omega) hlast]

theorem pageRows_limited {limit : Nat} (hfirst : 1 ≤ first) (hlimit : 1 ≤ limit) :
    pageRows lines first (some limit) =
      (List.range' first (min limit (lines.length + 1 - first))).map (LineRef.shownRow lines) := by
  have hmax : (max (first : Int) 1).toNat = first := by omega
  have hmax' : (max (limit : Int) 1).toNat = limit := by omega
  have hcount : min lines.length (first + limit - 1) + 1 - first =
      min limit (lines.length + 1 - first) := by omega
  simp only [pageRows, pageBounds, hmax, hmax', hcount]

/-- Pages that follow one another hold all rows from the first one's start on, up to the sum of their
limits. -/
theorem pagesFrom_eq (limits : List Nat) (hlimits : ∀ l ∈ limits, 1 ≤ l) (hfirst : 1 ≤ first) :
    pagesFrom lines first limits =
      (List.range' first (min limits.sum (lines.length + 1 - first))).map
        (LineRef.shownRow lines) := by
  induction limits generalizing first with
  | nil => rw [pagesFrom, List.sum_nil, Nat.zero_min, List.range'_zero, List.map_nil]
  | cons limit limits ih =>
    obtain ⟨hlimit, hlimits⟩ := List.forall_mem_cons.mp hlimits
    rw [pagesFrom, pageRows_limited hfirst hlimit, ih hlimits (by omega), ← List.map_append,
      List.sum_cons]
    congr 1
    by_cases hinside : limit ≤ lines.length + 1 - first
    · rw [Nat.min_eq_left hinside, List.range'_append_1]
      congr 1
      omega
    · rw [show min limits.sum (lines.length + 1 - (first + limit)) = 0 by omega, List.range'_zero,
        List.append_nil]
      congr 1
      omega

/-! ## Calls -/

/-- The call asks for the page of a file that starts at a line and has at most `limit` lines. -/
structure ReadCall (args : Fields) (path : String) (start : Int) (limit : Option Int) : Prop where
  isCall : isCall readArguments args = true
  path_eq : args.get? "path" = some (.text path)
  start_eq : (args.get? "start_line").getD (.whole 1) = .whole start
  limit_eq : (args.get? "limit").getD .null = (limit.map Value.whole).getD .null

theorem readLines_eq_ok (hshort : ws.isTooLong target.2 = false)
    (hfile : ws.file? target.2 = some (content, mode)) (hzero : Engine.isBinary content = false)
    (himage : Image.ofBytes? content = some image) (given : Text) :
    readLines ws given target = .ok image.lines := by
  obtain ⟨path, place⟩ := target
  simp only [readLines, hshort, hfile, hzero, himage, Bool.false_eq_true, if_false]

/-- A call for a page of a file of text is answered with that page. -/
theorem read_eq (hpath : resolvePath ws path.toList = .ok target)
    (hlines : readLines ws path.toList target = .ok lines) (hcall : ReadCall args path start limit) :
    read ws args = match page lines target.1 start limit with
      | .ok text => .page text
      | .error stop => stop.answer := by
  have hpage : pageOf lines target.1 ((args.get? "start_line").getD (.whole 1))
      ((args.get? "limit").getD .null) = page lines target.1 start limit := by
    rw [hcall.start_eq, hcall.limit_eq]
    cases limit <;> rfl
  simp only [read, hcall.isCall, hcall.path_eq, bind, Except.bind, hpath, hlines, hpage]
  rfl

/-- **What is read can be edited.** A page of a text file holds the rows of its lines, and pages that
follow one another hold those of the whole file. Where the lines are counted in numbers that are read,
as they are in every file with fewer than `10 ^ 4300` of them, a reference from a row, alone or in any
of the forms that are made of such references, is read as the lines it was shown for, and an edit by it
is granted unless it changes nothing; and rows in the place of the lines that they show change
nothing. -/
theorem read_agrees_with_edits {α : Type} [Score α] (config : Config α)
    (hpath : resolvePath ws path.toList = .ok target) (hshort : ws.isTooLong target.2 = false)
    (hfile : ws.file? target.2 = some (content, mode)) (hzero : Engine.isBinary content = false)
    (himage : Image.ofBytes? content = some image) (hne : image.lines ≠ []) :
    let total := image.lines.length
    let result (src dst : Text) := (Engine.apply config
      { path := target.1, lineEdits := some [⟨src, dst⟩] } (some content)).result
    (∀ args start limit, ReadCall args path start limit → start ≤ total →
      (∀ l, limit = some l → 1 ≤ l) →
      read ws args = .page (Text.unlines
        (pageHeader (pageBounds total start limit).1 (pageBounds total start limit).2 total target.1 ::
          pageRows image.lines start limit))) ∧
    (∀ limits : List Nat, (∀ l ∈ limits, 1 ≤ l) → total ≤ limits.sum →
      pagesFrom image.lines 1 limits =
        (List.range' 1 total).map (LineRef.shownRow image.lines)) ∧
    (Readable total → ∀ src named, LineTarget.Shown image.lines src named →
      LineTarget.read src = .ok named ∧
      (∀ dst, (named.isInsertion = true → dst ≠ []) → (∃ change, result src dst = .ok change) ∨
        ∃ why, result src dst = .error (.refused why) ∧ why.kind = .noOpChange) ∧
      (named.isInsertion = false → ∃ why,
        result src (Text.unlines ((List.range' named.first (named.last + 1 - named.first)).map
          (LineRef.shownRow image.lines))) = .error (.refused why) ∧ why.kind = .noOpChange)) := by
  intro total result
  refine ⟨fun args start limit hcall hstart hlimit => ?_, fun limits hlimits hsum => ?_,
    fun hfew src named hshown => ⟨hshown.read hfew, fun dst hdst => ?_, fun hreplaces => ?_⟩⟩
  · rw [read_eq hpath (readLines_eq_ok hshort hfile hzero himage _) hcall, page_eq hne hstart hlimit]
  · rw [pagesFrom_eq limits hlimits le_rfl, Nat.add_sub_cancel, Nat.min_eq_right hsum]
  · exact (Engine.apply_shown config target.1 (Engine.loadImage_of_ofBytes? hzero himage) hshown
      hfew hdst).imp_right fun hresult => ⟨_, hresult, rfl⟩
  · exact ⟨_, Engine.apply_own_rows config target.1 hzero himage hshown hfew hreplaces, rfl⟩

/-- A line that looks like a row, and an empty one. -/
def rowLines : List Text := [['1', ':', 'a', 'b', '|', ' ', 'x'], []]

def rowFile : Workspace where
  root := ['/', 'w']
  entries := [([['a']], .file (Text.terminated rowLines).toBytes 0o644)]

/-- A file whose first line looks like a row: its page, and its rows sent in the place of both lines. -/
theorem read_agrees_with_edits_rowFile :
    let rows := [1, 2].map (LineRef.shownRow rowLines)
    read rowFile [("path", .text "a")] = .page (Text.unlines (pageHeader 1 2 2 ['a'] :: rows)) ∧
    ∃ why, (Engine.apply (Config.usual (Score.decimal : Nat → Nat → Rat))
        { path := ['a'], lineEdits := some [⟨(LineRef.ofLine rowLines 1).shown ++ LineTarget.dots ++
          (LineRef.ofLine rowLines 2).shown, Text.unlines rows⟩] }
        (some (Text.terminated rowLines).toBytes)).result = .error (.refused why) ∧
      why.kind = .noOpChange := by
  have hlinks : ∀ entry ∈ rowFile.entries, ∀ target, entry.2 ≠ .link target := by
    rintro entry hentry target hlink
    cases List.mem_singleton.mp hentry
    cases hlink
  have hpath : resolvePath rowFile "a".toList = .ok (['a'], [['a']]) :=
    resolvePath_of_no_links hlinks (by decide) (by decide) (by decide)
  have hzero : Engine.isBinary (Text.terminated rowLines).toBytes = false := by decide +kernel
  have himage : Image.ofBytes? (Text.terminated rowLines).toBytes = some { lines := rowLines } := by
    rw [Image.ofBytes?, Text.ofBytes?_toBytes]
    rfl
  obtain ⟨hpages, -, hshown⟩ := read_agrees_with_edits
    (Config.usual (Score.decimal : Nat → Nat → Rat)) hpath rfl rfl hzero himage (by decide)
  have hfew : Readable rowLines.length := by decide +kernel
  obtain ⟨-, -, hown⟩ := hshown hfew _ _ (.range (by decide : 1 ≤ 1) (by decide : 1 ≤ 2) (by decide))
  exact ⟨hpages [("path", .text "a")] 1 none ⟨rfl, rfl, rfl, rfl⟩ (by decide) (by simp), hown rfl⟩

end LoosePatch.Tool
