import QueryWire.Proofs.Json.RoundTrip

namespace QueryWire

namespace Json

inductive Scan where
  | outside
  | inside
  | behindBackslash
deriving DecidableEq

namespace Scan

def next : Scan → Char → Scan
  | .outside, c => if c = '"' then .inside else .outside
  | .inside, c => if c = '"' then .outside else if c = '\\' then .behindBackslash else .inside
  | .behindBackslash, _ => .inside

/-- Where the scanner stands behind a text. -/
def run (scan : Scan) (text : List Char) : Scan := text.foldl next scan

def Deletes (scan : Scan) (c : Char) : Prop := scan = .outside ∧ (c = ' ' ∨ c = '\n')

instance (scan : Scan) (c : Char) : Decidable (scan.Deletes c) :=
  inferInstanceAs (Decidable (_ ∧ _))

def strip : Scan → List Char → List Char
  | _, [] => []
  | scan, c :: text =>
      if scan.Deletes c then (scan.next c).strip text else c :: (scan.next c).strip text

theorem strip_append (scan : Scan) (front rest : List Char) :
    scan.strip (front ++ rest) = scan.strip front ++ (scan.run front).strip rest := by
  induction front generalizing scan with
  | nil => rfl
  | cons c front ih =>
      simp only [List.cons_append, strip, run, List.foldl_cons] at ih ⊢
      split
      · exact ih _
      · rw [ih, List.cons_append]

theorem length_strip_le (scan : Scan) (text : List Char) :
    (scan.strip text).length ≤ text.length := by
  induction text generalizing scan with
  | nil => exact Nat.le_refl _
  | cons c text ih =>
      have := ih (scan.next c)
      rw [strip]
      split
      · exact Nat.le_succ_of_le this
      · exact Nat.succ_le_succ this

/-- In a text of which nothing is deleted, no character was one to be deleted. -/
theorem not_deletes_of_kept {scan : Scan} {before after : List Char} {c : Char}
    (kept : scan.strip (before ++ c :: after) = before ++ c :: after) :
    ¬ (scan.run before).Deletes c := by
  intro deletes
  -- Without the character the text would be shorter, whatever became of the others.
  have shorter := congrArg List.length kept
  have first := length_strip_le scan before
  have later := length_strip_le ((scan.run before).next c) after
  rw [strip_append, strip, if_pos deletes] at shorter
  simp only [List.length_append, List.length_cons] at shorter
  omega

/-- From `before` the scanner goes through the text to `after` and deletes nothing. -/
structure Keeps (before : Scan) (text : List Char) (after : Scan) : Prop where
  kept : before.strip text = text
  stands : before.run text = after

theorem Keeps.strip_append {before after : Scan} {text : List Char}
    (keeps : Keeps before text after) (rest : List Char) :
    before.strip (text ++ rest) = text ++ after.strip rest := by
  rw [Scan.strip_append, keeps.kept, keeps.stands]

theorem Keeps.append {before middle after : Scan} {text more : List Char}
    (keeps : Keeps before text middle) (later : Keeps middle more after) :
    Keeps before (text ++ more) after := by
  refine ⟨by rw [keeps.strip_append, later.kept], ?_⟩
  rw [run, List.foldl_append]
  exact (congrArg (run · more) keeps.stands).trans later.stands

theorem Keeps.of_forall {scan : Scan} {text : List Char}
    (each : ∀ c ∈ text, ¬ scan.Deletes c ∧ scan.next c = scan) : Keeps scan text scan := by
  induction text with
  | nil => exact ⟨rfl, rfl⟩
  | cons c text ih =>
      obtain ⟨kept, stays⟩ := each c List.mem_cons_self
      have first : Keeps scan [c] scan := ⟨if_neg kept, stays⟩
      exact first.append (ih fun other member => each other (List.mem_cons_of_mem c member))

/-- A text that stays outside strings and has no blanks. -/
def IsSolid (text : List Char) : Prop := ∀ c ∈ text, c ≠ '"' ∧ c ≠ ' ' ∧ c ≠ '\n'

instance (text : List Char) : Decidable (IsSolid text) :=
  List.decidableBAll _ text

theorem keeps_solid {text : List Char} (solid : IsSolid text) : Keeps .outside text .outside :=
  .of_forall fun c member => by
    obtain ⟨notQuote, notBlank⟩ := solid c member
    exact ⟨by simp [Deletes, notBlank], if_neg notQuote⟩

theorem keeps_inside {text : List Char} (plain : ∀ c ∈ text, c ≠ '"' ∧ c ≠ '\\') :
    Keeps .inside text .inside :=
  .of_forall fun c member => by
    obtain ⟨notQuote, notBackslash⟩ := plain c member
    exact ⟨by simp [Deletes], by rw [next, if_neg notQuote, if_neg notBackslash]⟩

theorem hexDigit_plain (n : Nat) : Text.hexDigit n ≠ '"' ∧ Text.hexDigit n ≠ '\\' := by
  have each : ∀ digit < 16, Nat.digitChar digit ≠ '"' ∧ Nat.digitChar digit ≠ '\\' := by decide
  exact each (n % 16) (Nat.mod_lt n (by decide))

theorem keeps_escaped (c : Char) : Keeps .inside (escaped c) .inside := by
  unfold escaped
  iterate 7
    split
    · exact ⟨rfl, rfl⟩
  next notQuote notBackslash _ _ _ _ _ =>
  split
  · have opens : Keeps .inside ['\\', 'u'] .inside := ⟨rfl, rfl⟩
    refine opens.append (keeps_inside ?_)
    simp only [List.forall_mem_cons]
    exact ⟨by decide, by decide, hexDigit_plain _, hexDigit_plain _, by simp⟩
  · exact keeps_inside (by simp [notQuote, notBackslash])

theorem keeps_flatMap_escaped (content : List Char) :
    Keeps .inside (content.flatMap escaped) .inside := by
  induction content with
  | nil => exact ⟨rfl, rfl⟩
  | cons c content ih => exact (keeps_escaped c).append ih

theorem keeps_quoted (text : String) : Keeps .outside (quoted text) .outside := by
  have opens : Keeps .outside ['"'] .inside := ⟨rfl, rfl⟩
  have closes : Keeps .inside ['"'] .outside := ⟨rfl, rfl⟩
  exact (opens.append (keeps_flatMap_escaped text.toList)).append closes

theorem strip_lineBreak (layout : Layout) (depth : Nat) (rest : List Char) :
    strip .outside (layout.lineBreak depth ++ rest) = strip .outside rest := by
  cases layout with
  | compact => rfl
  | pretty =>
      have spaces (count : Nat) :
          strip .outside (List.replicate count ' ' ++ rest) = strip .outside rest := by
        induction count with
        | zero => rfl
        | succ count ih => exact ih
      exact spaces (2 * depth)

theorem strip_colon (layout : Layout) (rest : List Char) :
    strip .outside (layout.colon ++ rest) = ':' :: strip .outside rest := by
  cases layout <;> rfl

/-- The text of a tree in a layout, wherever it stands, becomes its compact text. -/
def Strips (layout : Layout) (tree : Json (List Char)) : Prop :=
  ∀ depth rest, strip .outside (tree.text layout depth rest) =
    tree.text .compact depth (strip .outside rest)

/-- A mark between values is kept, and the line break behind it deleted. -/
theorem strip_mark {layout : Layout} {mark : Char} (solid : mark ≠ '"' ∧ mark ≠ ' ' ∧ mark ≠ '\n')
    (depth : Nat) (text : List Char) :
    strip .outside (mark :: (layout.lineBreak depth ++ text)) = mark :: strip .outside text := by
  have kept : Keeps .outside [mark] .outside := keeps_solid (List.forall_mem_singleton.mpr solid)
  rw [← strip_lineBreak layout depth text]
  exact kept.strip_append _

theorem strip_moreItems {layout : Layout} {items : List (Json (List Char))}
    (each : ∀ item ∈ items, Strips layout item) (depth : Nat) (rest : List Char) :
    strip .outside (moreItems layout depth items rest) =
      moreItems .compact depth items (strip .outside rest) := by
  induction items with
  | nil => rfl
  | cons item items ih =>
      have later := ih fun other member => each other (List.mem_cons_of_mem item member)
      calc strip .outside (moreItems layout depth (item :: items) rest)
          = ',' :: strip .outside (item.text layout depth (moreItems layout depth items rest)) :=
            strip_mark (by decide) depth _
        _ = moreItems .compact depth (item :: items) (strip .outside rest) := by
            rw [each item List.mem_cons_self, later]
            rfl

theorem strip_named {layout : Layout} {tree : Json (List Char)} (strips : Strips layout tree)
    (name : String) (depth : Nat) (rest : List Char) :
    strip .outside (quoted name ++ (layout.colon ++ tree.text layout depth rest)) =
      quoted name ++ ':' :: tree.text .compact depth (strip .outside rest) := by
  rw [(keeps_quoted name).strip_append, strip_colon, strips]

theorem strip_moreMembers {layout : Layout} {members : List (String × Json (List Char))}
    (each : ∀ member ∈ members, Strips layout member.2) (depth : Nat) (rest : List Char) :
    strip .outside (moreMembers layout depth members rest) =
      moreMembers .compact depth members (strip .outside rest) := by
  induction members with
  | nil => rfl
  | cons member members ih =>
      obtain ⟨name, tree⟩ := member
      have later := ih fun other inside => each other (List.mem_cons_of_mem (name, tree) inside)
      rw [moreMembers_cons, strip_mark (by decide),
        strip_named (each (name, tree) List.mem_cons_self), later, moreMembers_cons]
      rfl

theorem strips_of_solid (layout : Layout) {tree : Json (List Char)} (solid : tree.Each IsSolid) :
    Strips layout tree := by
  induction solid with
  | null => exact fun _ rest => (keeps_solid (by decide)).strip_append rest
  | boolean value => cases value with
    | false => exact fun _ rest => (keeps_solid (by decide)).strip_append rest
    | true => exact fun _ rest => (keeps_solid (by decide)).strip_append rest
  | number held => exact fun _ rest => (keeps_solid held).strip_append rest
  | string text => exact fun _ rest => (keeps_quoted text).strip_append rest
  | @array items _ ih =>
      intro depth rest
      cases items with
      | nil => rfl
      | cons item items =>
          have close : strip .outside (layout.lineBreak depth ++ ']' :: rest) =
              ']' :: strip .outside rest := strip_lineBreak layout depth _
          have later := strip_moreItems
            (fun other member => ih other (List.mem_cons_of_mem item member)) (depth + 1)
            (layout.lineBreak depth ++ ']' :: rest)
          calc strip .outside ((Json.array (item :: items)).text layout depth rest)
              = '[' :: strip .outside (item.text layout (depth + 1)
                  (moreItems layout (depth + 1) items (layout.lineBreak depth ++ ']' :: rest))) := by
                rw [Json.text]
                exact strip_mark (by decide) (depth + 1) _
            _ = (Json.array (item :: items)).text .compact depth (strip .outside rest) := by
                rw [ih item List.mem_cons_self, later, close]
                simp [Json.text, Layout.lineBreak]
  | @object members _ ih =>
      intro depth rest
      cases members with
      | nil => rfl
      | cons member members =>
          obtain ⟨name, tree⟩ := member
          have close : strip .outside (layout.lineBreak depth ++ '\x7d' :: rest) =
              '\x7d' :: strip .outside rest := strip_lineBreak layout depth _
          have later := strip_moreMembers
            (fun other inside => ih other (List.mem_cons_of_mem (name, tree) inside)) (depth + 1)
            (layout.lineBreak depth ++ '\x7d' :: rest)
          rw [text_object_cons, strip_mark (by decide),
            strip_named (ih (name, tree) List.mem_cons_self), later, close, text_object_cons]
          rfl

theorem IsSolid.append {text more : List Char} (solid : IsSolid text) (later : IsSolid more) :
    IsSolid (text ++ more) :=
  List.forall_mem_append.mpr ⟨solid, later⟩

theorem isSolid_run {run : List Char} (isRun : Grammar.IsRun run) : IsSolid run := by
  intro c member
  have digit := isRun.2 c member
  refine ⟨?_, ?_, ?_⟩ <;> rintro rfl <;> cases digit

theorem isSolid_numberToken {token : List Char} (isNumber : Grammar.NumberToken token) :
    IsSolid token := by
  cases isNumber with
  | @parts sign whole fraction power signs wholes fractions powers =>
      have signed : ∀ sign ∈ [[], ['-']], IsSolid sign := by decide
      refine (signed sign signs).append (.append ?_ (.append ?_ ?_))
      · cases wholes with
        | zero => decide
        | digits isRun => exact isSolid_run isRun
      · cases fractions with
        | none => decide
        | digits isRun =>
            have point : IsSolid ['.'] := by decide
            exact point.append (isSolid_run isRun)
      · cases powers with
        | none => decide
        | @digits mark sign run marks signs isRun =>
            have signed : ∀ sign ∈ [[], ['+'], ['-']], IsSolid sign := by decide
            have marked : IsSolid [mark] := by rcases marks with rfl | rfl <;> decide
            exact marked.append ((signed sign signs).append (isSolid_run isRun))

end Scan

end Json

open Json.Scan

/-- The token of every number is solid, even that of a double that is not finite. -/
theorem Number.isSolid_token (number : Number) : IsSolid number.token := by
  by_cases finite : number.Finite
  · exact isSolid_numberToken (isNumber_token finite)
  · cases number with
    | integer n => exact absurd trivial finite
    | double x =>
        have null : (double x).token = "null".toList := if_neg finite
        rw [null]
        decide

namespace Json

/-- A text without the blanks that stand outside its strings. -/
def stripped (text : String) : String :=
  String.ofList (Scan.outside.strip text.toList)

theorem stripped_write (layout : Layout) (tree : Json Number) :
    stripped (tree.write layout) = tree.write .compact := by
  have solid : (tree.mapNumbers Number.token).Each IsSolid :=
    (Each.of_forall (fun _ => trivial) tree : tree.Each fun _ => True).mapNumbers
      fun number _ => number.isSolid_token
  have text := strips_of_solid layout solid 0 []
  simp only [stripped, write, render, String.toList_ofList]
  rw [text]
  rfl

end Json

end QueryWire
