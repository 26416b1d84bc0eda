import Mathlib.Data.List.Forall2
import RSpark.Batch

/- The text table a batch is written as. Columns are as wide as the bytes of their longest
   cell, while cells are filled up to that width by characters. -/
namespace RSparkWriter
open RSparkValue RSparkBatch FloatText

section Render

def cellText : Value → String
  | .null => "NULL"
  | .boolean b => boolToString b
  | .int32 i => i32ToString i
  | .int64 i => i64ToString i
  | .float32 f => print32 f
  | .float64 f => print64 f
  | .string s => s

def padLeft (width : Nat) (text : String) : List Char :=
  List.replicate (width - text.toList.length) ' ' ++ text.toList

def padRight (width : Nat) (text : String) : List Char :=
  text.toList ++ List.replicate (width - text.toList.length) ' '

def dashes (width : Nat) : List Char := List.replicate width '-'

def join (separator : List Char) (cells : List (List Char)) : List Char :=
  List.intercalate separator cells

def widen : List Nat → List String → List Nat
  | [], _ => []
  | widths, [] => widths
  | width :: widths, cell :: cells => max width cell.utf8ByteSize :: widen widths cells

def renderedRow (record : Record) : List String := record.values.map cellText

def columnWidths (batch : RecordBatch) : List Nat :=
  (batch.records.map renderedRow).foldl widen
    (batch.schema.fields.map fun f => f.name.utf8ByteSize)

def headerLine (widths : List Nat) (schema : Schema) : List Char :=
  join " | ".toList (List.zipWith padLeft widths schema.fieldNames)

def dashLine (widths : List Nat) : List Char := join "-+-".toList (widths.map dashes)

def rowLine (widths : List Nat) (record : Record) : List Char :=
  join " | ".toList (List.zipWith padRight widths (renderedRow record))

def countLine (count : Nat) : List Char := s!"({count} rows)".toList

def rowLines (widths : List Nat) (records : List Record) (last : List Char) : List Char :=
  match records with
  | [] => last
  | record :: rest => rowLine widths record ++ '\n' :: rowLines widths rest last

def renderTable (batch : RecordBatch) : List Char :=
  if batch.isEmpty then countLine 0 ++ ['\n']
  else
    let widths := columnWidths batch
    headerLine widths batch.schema ++ '\n' :: dashLine widths ++
      '\n' :: rowLines widths batch.records (countLine batch.len ++ ['\n'])

end Render

section Widths

theorem chars_le_bytes (s : String) : s.toList.length ≤ s.utf8ByteSize := by
  have encoded : ∀ l : List Char, l.length ≤ (String.ofList l).utf8ByteSize := by
    intro l
    induction l with
    | nil => simp
    | cons c l ih =>
      have parts : String.ofList (c :: l) = String.singleton c ++ String.ofList l := by
        apply String.toList_injective
        simp
      have first := c.utf8Size_pos
      rw [parts, String.utf8ByteSize_append, String.utf8ByteSize_singleton, List.length_cons]
      omega
  simpa using encoded s.toList

def Fits (width : Nat) (cell : String) : Prop := cell.utf8ByteSize ≤ width

theorem padLeft_length {width : Nat} {cell : String} (fits : Fits width cell) :
    (padLeft width cell).length = width := by
  have chars := chars_le_bytes cell
  unfold Fits at fits
  rw [padLeft, List.length_append, List.length_replicate]
  omega

theorem padRight_length {width : Nat} {cell : String} (fits : Fits width cell) :
    (padRight width cell).length = width := by
  have chars := chars_le_bytes cell
  unfold Fits at fits
  rw [padRight, List.length_append, List.length_replicate]
  omega

theorem widen_length (widths : List Nat) (cells : List String) :
    (widen widths cells).length = widths.length := by
  induction widths generalizing cells with
  | nil => rfl
  | cons width widths ih =>
    cases cells with
    | nil => rfl
    | cons cell cells => simpa [widen] using ih cells

theorem widen_keeps {widths : List Nat} {fitting : List String} (cells : List String)
    (fits : List.Forall₂ Fits widths fitting) : List.Forall₂ Fits (widen widths cells) fitting := by
  induction fits generalizing cells with
  | nil => exact .nil
  | cons first _ ih =>
    cases cells with
    | nil => exact .cons first (by assumption)
    | cons cell cells => exact .cons (Nat.le_trans first (Nat.le_max_left _ _)) (ih cells)

theorem widen_fits {widths : List Nat} {cells : List String}
    (same : cells.length = widths.length) : List.Forall₂ Fits (widen widths cells) cells := by
  induction widths generalizing cells with
  | nil =>
    obtain rfl := List.length_eq_zero_iff.mp same
    exact .nil
  | cons width widths ih =>
    cases cells with
    | nil => exact absurd same (by simp)
    | cons cell cells => exact .cons (Nat.le_max_right _ _) (ih (by simpa using same))

theorem foldl_widen_keeps {widths : List Nat} {fitting : List String} (rows : List (List String))
    (fits : List.Forall₂ Fits widths fitting) :
    List.Forall₂ Fits (rows.foldl widen widths) fitting := by
  induction rows generalizing widths with
  | nil => exact fits
  | cons row rows ih => exact ih (widen_keeps row fits)

theorem foldl_widen_fits {widths : List Nat} {rows : List (List String)}
    (same : ∀ row ∈ rows, row.length = widths.length) :
    ∀ row ∈ rows, List.Forall₂ Fits (rows.foldl widen widths) row := by
  induction rows generalizing widths with
  | nil => exact fun row mem => nomatch mem
  | cons first rows ih =>
    intro row mem
    rcases List.mem_cons.mp mem with rfl | later
    · exact foldl_widen_keeps rows (widen_fits (same row List.mem_cons_self))
    · refine ih (fun r mem => ?_) row later
      rw [widen_length]
      exact same r (List.mem_cons_of_mem _ mem)

theorem columnWidths_header (batch : RecordBatch) :
    List.Forall₂ Fits (columnWidths batch) batch.schema.fieldNames := by
  refine foldl_widen_keeps _ ?_
  rw [Schema.fieldNames, List.forall₂_map_left_iff, List.forall₂_map_right_iff]
  exact List.forall₂_same.mpr fun f _ => Nat.le_refl _

theorem columnWidths_row {batch : RecordBatch} (valid : batch.Valid) {record : Record}
    (mem : record ∈ batch.records) :
    List.Forall₂ Fits (columnWidths batch) (renderedRow record) := by
  refine foldl_widen_fits ?_ _ (List.mem_map_of_mem mem)
  intro row listed
  obtain ⟨r, inside, rfl⟩ := List.mem_map.mp listed
  simpa [renderedRow, Schema.fieldCount] using (valid r inside).1

end Widths

section Lines

theorem join_length {separator separator' : List Char} {a b : List (List Char)}
    (as : separator.length = separator'.length)
    (same : a.map List.length = b.map List.length) :
    (join separator a).length = (join separator' b).length := by
  induction a generalizing b with
  | nil =>
    obtain rfl := List.map_eq_nil_iff.mp same.symm
    rfl
  | cons x a ih =>
    cases b with
    | nil => exact absurd same (by simp)
    | cons y b =>
      obtain ⟨first, rest⟩ := List.cons.inj same
      cases a with
      | nil =>
        obtain rfl := List.map_eq_nil_iff.mp rest.symm
        simpa [join] using first
      | cons x' a =>
        cases b with
        | nil => exact absurd rest (by simp)
        | cons y' b =>
          have later := ih rest
          simp only [join, List.intercalate_cons_cons, List.length_append] at later ⊢
          omega

theorem zipWith_lengths {pad : Nat → String → List Char}
    (filled : ∀ {width cell}, Fits width cell → (pad width cell).length = width)
    {widths : List Nat} {cells : List String} (fits : List.Forall₂ Fits widths cells) :
    (List.zipWith pad widths cells).map List.length =
      (widths.map dashes).map List.length := by
  induction fits with
  | nil => rfl
  | cons first _ ih => simp [filled first, dashes, ih]

theorem headerLine_length {widths : List Nat} {schema : Schema}
    (fits : List.Forall₂ Fits widths schema.fieldNames) :
    (headerLine widths schema).length = (dashLine widths).length :=
  join_length (by simp) (zipWith_lengths padLeft_length fits)

theorem rowLine_length {widths : List Nat} {record : Record}
    (fits : List.Forall₂ Fits widths (renderedRow record)) :
    (rowLine widths record).length = (dashLine widths).length :=
  join_length (by simp) (zipWith_lengths padRight_length fits)

theorem mem_join {separator : List Char} {cells : List (List Char)} {c : Char}
    (mem : c ∈ join separator cells) : c ∈ separator ∨ ∃ cell ∈ cells, c ∈ cell := by
  induction cells with
  | nil => exact nomatch mem
  | cons first rest ih =>
    cases rest with
    | nil => exact Or.inr ⟨first, List.mem_cons_self, by simpa [join] using mem⟩
    | cons second rest =>
      rw [join, List.intercalate_cons_cons, List.append_assoc, List.mem_append,
        List.mem_append] at mem
      rcases mem with here | between | later
      · exact Or.inr ⟨first, List.mem_cons_self, here⟩
      · exact Or.inl between
      · rcases ih later with between | ⟨cell, inside, here⟩
        · exact Or.inl between
        · exact Or.inr ⟨cell, List.mem_cons_of_mem _ inside, here⟩

theorem mem_dashLine {widths : List Nat} {c : Char} (mem : c ∈ dashLine widths) :
    c = '-' ∨ c = '+' := by
  rcases mem_join mem with between | ⟨cell, inside, here⟩
  · have known : c = '-' ∨ c = '+' ∨ c = '-' := by simpa using between
    tauto
  · obtain ⟨width, _, rfl⟩ := List.mem_map.mp inside
    exact Or.inl (List.eq_of_mem_replicate here)

theorem mem_headerLine {widths : List Nat} {schema : Schema} {c : Char}
    (mem : c ∈ headerLine widths schema) :
    c = ' ' ∨ c = '|' ∨ ∃ name ∈ schema.fieldNames, c ∈ name.toList := by
  rcases mem_join mem with between | ⟨cell, inside, here⟩
  · have known : c = ' ' ∨ c = '|' ∨ c = ' ' := by simpa using between
    tauto
  · obtain ⟨i, bound, rfl⟩ := List.mem_iff_getElem.mp inside
    rw [List.getElem_zipWith, padLeft] at here
    rcases List.mem_append.mp here with blank | char
    · exact Or.inl (List.eq_of_mem_replicate blank)
    · exact Or.inr (Or.inr ⟨_, List.getElem_mem _, char⟩)

theorem mem_countLine {count : Nat} {c : Char} (mem : c ∈ countLine count) :
    c.isDigit = true ∨ c ∈ "( rows)".toList := by
  have text : countLine count = '(' :: (Nat.toDigits 10 count ++ " rows)".toList) := by
    simp [countLine, Nat.repr]
    rfl
  rw [text, List.mem_cons, List.mem_append] at mem
  rcases mem with rfl | digit | word
  · exact Or.inr (by decide)
  · exact Or.inl (Nat.isDigit_of_mem_toDigits (by decide) (by decide) digit)
  · exact Or.inr (List.mem_cons_of_mem _ word)

end Lines

end RSparkWriter
