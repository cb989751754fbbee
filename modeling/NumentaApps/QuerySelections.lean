import NumentaApps.CoreDatabaseImpl
import Mathlib.Tactic.Linarith

/-!
# When the selections of the mobile database are right

A selection is read back filter by filter. An id that holds a quote is read as another text, and the
filter after that of the aggregation is not read at all if the aggregation comes first.
-/
namespace NumentaApps.MobileCore.CoreDatabaseImpl
open SqlCondition

section Texts
variable {columns : Columns} {text : List Char}

theorem lexes_longText (t : ℤ) : ∃ tokens, Lexes (longText t) tokens ∧
    (tokens = [.number t] ∨ tokens = [.minus, .number (-t : ℚ)]) := by
  cases t with
  | ofNat n => exact ⟨_, lexes_toDigits n, .inl (by simp)⟩
  | negSucc n =>
    refine ⟨_, lexes_minus (lexes_toDigits (n + 1)), .inr ?_⟩
    rw [Int.cast_negSucc, neg_neg]

theorem lexes_floatText (d : FloatText) : Lexes d.toText [.number d.value] := by
  intro rest hrest
  obtain ⟨whole, fraction, exponent, hdigits⟩ := d
  simp only [FloatText.toText, FloatText.value]
  rw [List.append_assoc, lex_blank_toDigits, List.cons_append, lex_cons (by decide) rfl,
    List.append_assoc, lex_fraction hdigits, Nat.zero_add]
  cases exponent with
  | none => exact lex_complete rfl rfl hrest
  | some e =>
    rw [List.cons_append, lex_cons (by decide) rfl]
    cases e with
    | ofNat n =>
      have hnegative : decide (Int.ofNat n < 0) = false :=
        decide_eq_false (Int.not_lt.mpr (Int.natCast_nonneg n))
      simp only [longText, lex_mark_toDigits, hnegative]
      exact lex_complete rfl rfl hrest
    | negSucc n =>
      have hnegative : decide (Int.negSucc n < 0) = true := decide_eq_true (by omega)
      simp only [longText, hnegative]
      rw [List.cons_append, lex_cons (by decide) rfl, lex_sign_toDigits]
      exact lex_complete rfl rfl hrest

/-- An operator with its text. -/
def opText : Operator → List Char
  | .eq => ['=']
  | .le => ['<', '=']
  | .ge => ['>', '=']

theorem lexes_opText (op : Operator) : Lexes (opText op) [.operator op] := by
  cases op with
  | eq => exact lexes_eq
  | le => exact lexes_le
  | ge => exact lexes_ge

theorem reads_long {w : List Char} (hw : Lexes w [.word w]) (op : Operator) (t : ℤ) :
    Reads (w ++ ' ' :: (opText op ++ ' ' :: longText t)) ⟨columnName w, op, .number t⟩ := by
  obtain ⟨tokens, hlex, rfl | rfl⟩ := lexes_longText t
  · exact reads_operand hw (lexes_opText op) hlex rfl
  · have h := reads_negative hw (lexes_opText op) hlex
    rwa [neg_neg] at h

theorem numberOf_longText (t : ℤ) : numberOf (longText t) = some (t : ℚ) := by
  obtain ⟨tokens, hlex, htokens⟩ := lexes_longText t
  have hend := hlex [] (.inl rfl)
  rw [List.append_nil] at hend
  rw [numberOf, hend]
  rcases htokens with rfl | rfl
  · rfl
  · change some (-(-t : ℚ)) = some (t : ℚ)
    rw [neg_neg]

end Texts

section Selections
variable {columns : Columns} {sel : Selection} {filter : Option (List Char)} {p : List Char}
  {xs ys : List Comparison} {wanted wanted' : Row → Prop}

/-- The selection so far is read as these comparisons, and the flag says whether it is empty. -/
def Built (columns : Columns) (sel : Selection) (xs : List Comparison) : Prop :=
  (sel.text = [] ∧ sel.append = false ∧ xs = []) ∨
    (sel.append = true ∧ Conjoins columns sel.text xs)

/-- A filter that may be absent is read as these comparisons. -/
def Filters (columns : Columns) (filter : Option (List Char)) (xs : List Comparison) : Prop :=
  (filter = none ∧ xs = []) ∨ ∃ p, filter = some p ∧ Conjoins columns p xs

theorem built_empty : Built columns .empty [] := .inl ⟨rfl, rfl, rfl⟩

theorem Built.parse_textWith (h : Built columns sel xs) (p : List Char) :
    parse columns (sel.textWith p) = (parse columns p).map (xs ++ ·) := by
  rcases h with ⟨htext, happend, rfl⟩ | ⟨happend, hsel⟩
  · rw [Selection.textWith, happend, htext]
    simp
  · rw [Selection.textWith, if_pos happend, hsel.before]

theorem Built.textWith (h : Built columns sel xs) (hp : Conjoins columns p ys) :
    Conjoins columns (sel.textWith p) (xs ++ ys) := by
  rcases h with ⟨htext, happend, rfl⟩ | ⟨happend, hsel⟩
  · rw [Selection.textWith, happend, htext]
    exact hp
  · rw [Selection.textWith, if_pos happend]
    exact hsel.append hp

theorem Built.add (h : Built columns sel xs) (hfilter : Filters columns filter ys) :
    Built columns (sel.add filter) (xs ++ ys) := by
  rcases hfilter with ⟨rfl, rfl⟩ | ⟨p, rfl, hp⟩
  · rw [List.append_nil]
    exact h
  · exact .inr ⟨rfl, h.textWith hp⟩

theorem Built.selects_iff (h : Built columns sel xs) : Selects columns sel.text [] wanted ↔
    ∀ row, (∀ x ∈ xs, x.holds columns row) ↔ wanted row := by
  rcases h with ⟨htext, _, rfl⟩ | ⟨_, hsel⟩
  · rw [Selects, if_pos htext]
    simp
  · rw [Selects, if_neg hsel.ne_nil, hsel.alone]
    simp only [Option.some.injEq, bindArguments_nil, exists_and_left, exists_eq_left']

theorem Built.selects_textWith (h : Built columns sel xs) (hp : p ≠ []) :
    Selects columns (sel.textWith p) [] wanted ↔ ∃ ys, parse columns p = some ys ∧
      ∀ row, (∀ x ∈ xs, x.holds columns row) ∧ (∀ y ∈ ys, y.holds columns row) ↔ wanted row := by
  have hne : sel.textWith p ≠ [] := by
    rw [Selection.textWith]
    exact List.append_ne_nil_of_right_ne_nil _ hp
  rw [Selects, if_neg hne, h.parse_textWith]
  simp only [bindArguments_nil, Option.map_eq_some_iff, Option.some.injEq, exists_and_left,
    exists_eq_left']
  constructor
  · rintro ⟨_, ⟨ys, hys, rfl⟩, hrows⟩
    exact ⟨ys, hys, fun row => by rw [← hrows row, List.forall_mem_append]⟩
  · rintro ⟨ys, hys, hrows⟩
    exact ⟨_, ⟨ys, hys, rfl⟩, fun row => by rw [← hrows row, List.forall_mem_append]⟩

theorem selects_congr (h : ∀ row, wanted row ↔ wanted' row) {text : List Char}
    {arguments : List (List Char)} :
    Selects columns text arguments wanted ↔ Selects columns text arguments wanted' := by
  obtain rfl : wanted = wanted' := funext fun row => propext (h row)
  rfl

end Selections

section Ids
variable {columns : Columns} {sel : Selection} {column id : List Char} {xs ys : List Comparison}

/-- An id that can be written between quotes as it is. -/
def Clean (id : List Char) : Prop := ∀ c ∈ id, c ≠ '\'' ∧ c ≠ '\x00'

theorem idIs_eq (column id : List Char) :
    idIs column id = column ++ ' ' :: (opText .eq ++ ' ' :: ('\'' :: (id ++ ['\'']))) := by
  simp [idIs, opText]

theorem idIs_clean (hcolumn : Lexes column [.word column]) (hname : columnName column = column)
    (htexts : column ∈ columns.texts) (hid : Clean id) :
    Conjoins columns (idIs column id) [⟨column, .eq, .text id⟩] := by
  rw [idIs_eq]
  have h := reads_operand hcolumn lexes_eq (lexes_string hid) rfl
  rw [hname] at h
  exact h.conjoins (decide_eq_true htexts)

/-- Any other id is read as a text that it is not. -/
theorem idIs_unclean (hcolumn : Lexes column [.word column]) (hname : columnName column = column)
    (hid : ¬ Clean id) (h : parse columns (idIs column id) = some ys) :
    ∃ u, u ≠ id ∧ ⟨column, .eq, .text u⟩ ∈ ys := by
  have hlex : lex .blank (idIs column id) =
      (lex (.string []) (id ++ ['\''])).map ([.word column, .operator .eq] ++ ·) := by
    have hstart := hcolumn.append lexes_eq
    rw [idIs_eq, ← List.cons_append, ← List.append_assoc]
    refine (hstart _ (.inr ⟨_, rfl⟩)).trans ?_
    rw [lex_cons (by decide) rfl, lex_cons (by decide) rfl]
    rfl
  rw [parse, hlex] at h
  cases hstring : lex (.string []) (id ++ ['\'']) with
  | none =>
    rw [hstring] at h
    cases h
  | some tokens =>
    obtain ⟨u, rest, rfl, _, hall⟩ := lex_string_cases hstring
    rw [hstring, Option.map_some, Option.bind_some, List.nil_append] at h
    obtain ⟨zs, hzs, hys⟩ := Option.bind_eq_some_iff.mp h
    have hmem := conjunction_string hzs
    rw [hname] at hmem
    refine ⟨u, ?_, ?_⟩
    · intro heq
      subst heq
      exact hid (hall (by simp))
    · split at hys
      · cases hys
        exact hmem
      · cases hys

theorem holds_number {row row' : Row} (hnumber : row.number = row'.number) {x : Comparison}
    (hx : x.column ∈ columns.numbers) : x.holds columns row ↔ x.holds columns row' := by
  rw [Comparison.holds, Comparison.holds, if_pos hx, if_pos hx, hnumber]

theorem holds_text_eq (hnumbers : column ∉ columns.numbers) (u : List Char) (row : Row) :
    (⟨column, .eq, .text u⟩ : Comparison).holds columns row ↔ row.text column = some u := by
  rw [Comparison.holds, if_neg hnumbers]
  constructor
  · rintro ⟨t, htext, rfl⟩
    exact htext
  · intro htext
    exact ⟨u, htext, rfl⟩

/-- An id that is not clean does no harm only where no row is wanted for another reason. -/
theorem Built.selects_id (h : Built columns sel xs) (hcolumn : Lexes column [.word column])
    (hname : columnName column = column) (htexts : column ∈ columns.texts)
    (hnumbers : column ∉ columns.numbers) (hxs : ∀ x ∈ xs, x.column ∈ columns.numbers) :
    Selects columns (sel.textWith (idIs column id)) []
        (fun row => (∀ x ∈ xs, x.holds columns row) ∧ row.text column = some id) ↔
      Clean id ∨ ((parse columns (idIs column id)).isSome ∧
        ¬ ∃ row, ∀ x ∈ xs, x.holds columns row) := by
  have hne : idIs column id ≠ [] := by simp [idIs]
  rw [h.selects_textWith hne]
  by_cases hid : Clean id
  · refine iff_of_true ⟨_, (idIs_clean hcolumn hname htexts hid).alone, fun row => ?_⟩ (.inl hid)
    rw [List.forall_mem_singleton, holds_text_eq hnumbers]
  · constructor
    · intro ⟨ys, hys, hrows⟩
      refine .inr ⟨Option.isSome_iff_exists.mpr ⟨ys, hys⟩, fun ⟨row, hrow⟩ => ?_⟩
      obtain ⟨u, hu, hmem⟩ := idIs_unclean hcolumn hname hid hys
      -- the row with this very id
      have hnumber : ∀ x ∈ xs, x.holds columns { row with text := fun _ => some id } := by
        intro x hx
        refine (@holds_number _ row _ ?_ _ (hxs x hx)).mp (hrow x hx)
        rfl
      have hall := ((hrows { row with text := fun _ => some id }).mpr ⟨hnumber, rfl⟩).2
      have heq := (holds_text_eq hnumbers u _).mp (hall _ hmem)
      exact hu (Option.some.inj heq).symm
    · rintro (hclean | ⟨hsome, hempty⟩)
      · exact absurd hclean hid
      · obtain ⟨ys, hys⟩ := Option.isSome_iff_exists.mp hsome
        refine ⟨ys, hys, fun row => ?_⟩
        exact iff_of_false (fun hrow => hempty ⟨row, hrow.1⟩) fun hrow => hempty ⟨row, hrow.1⟩

end Ids

section Numbers
variable {columns : Columns} {fromTime toTime : Option ℤ} {d : FloatText} {row : Row}

def timeComparisons (fromTime toTime : Option ℤ) : List Comparison :=
  (fromTime.toList.map fun t : ℤ => ⟨"timestamp".toList, .ge, .number t⟩) ++
    toTime.toList.map fun t : ℤ => ⟨"timestamp".toList, .le, .number t⟩

def aggregationComparisons (aggregation : Option AggregationType) : List Comparison :=
  aggregation.toList.map fun a => ⟨"aggregation".toList, .eq, .number (a.minutes : ℕ)⟩

def scoreComparisons (d : FloatText) : List Comparison :=
  if 0 < d.value then [⟨"anomaly_score".toList, .ge, .number d.value⟩] else []

theorem lexes_timestamp : Lexes "timestamp".toList [.word "timestamp".toList] :=
  lexes_word (by decide) rfl rfl

theorem lexes_aggregation : Lexes "aggregation".toList [.word "aggregation".toList] :=
  lexes_word (by decide) rfl rfl

theorem lexes_anomaly_score : Lexes "anomaly_score".toList [.word "anomaly_score".toList] :=
  lexes_word (by decide) rfl rfl

theorem lexes_metric_id : Lexes "metric_id".toList [.word "metric_id".toList] :=
  lexes_word (by decide) rfl rfl

theorem lexes_instance_id : Lexes "instance_id".toList [.word "instance_id".toList] :=
  lexes_word (by decide) rfl rfl

/-- A filter is a column, an operator and what follows them. -/
theorem filter_eq {start column op : List Char} (h : start = column ++ ' ' :: (op ++ [' ']))
    (operand : List Char) : start ++ operand = column ++ ' ' :: (op ++ ' ' :: operand) := by
  rw [h, List.append_assoc, List.cons_append, List.append_assoc]
  rfl

/-- The starts of the filters. -/
theorem filterStarts_eq :
    "timestamp >= ".toList = "timestamp".toList ++ ' ' :: (opText .ge ++ [' ']) ∧
    "timestamp <= ".toList = "timestamp".toList ++ ' ' :: (opText .le ++ [' ']) ∧
    "aggregation = ".toList = "aggregation".toList ++ ' ' :: (opText .eq ++ [' ']) ∧
    "anomaly_score >= ".toList = "anomaly_score".toList ++ ' ' :: (opText .ge ++ [' ']) ∧
    columnName "timestamp".toList = "timestamp".toList ∧
    columnName "instance_id".toList = "instance_id".toList := by
  decide +kernel

theorem timestampFrom_eq (t : ℤ) :
    timestampFrom t = "timestamp".toList ++ ' ' :: (opText .ge ++ ' ' :: longText t) :=
  filter_eq filterStarts_eq.1 (longText t)

theorem timestampTo_eq (t : ℤ) :
    timestampTo t = "timestamp".toList ++ ' ' :: (opText .le ++ ' ' :: longText t) :=
  filter_eq filterStarts_eq.2.1 (longText t)

theorem aggregationIs_eq (a : AggregationType) : aggregationIs a =
    "aggregation".toList ++ ' ' :: (opText .eq ++ ' ' :: Nat.toDigits 10 a.minutes) :=
  filter_eq filterStarts_eq.2.2.1 (Nat.toDigits 10 a.minutes)

theorem anomalyScoreFrom_eq {score : AnomalyScore} (h : score.isPositive) : anomalyScoreFrom score =
    some ("anomaly_score".toList ++ ' ' :: (opText .ge ++ ' ' :: score.toText)) := by
  rw [anomalyScoreFrom, if_pos h]
  exact congrArg some (filter_eq filterStarts_eq.2.2.2.1 score.toText)

theorem filters_from (h : "timestamp".toList ∈ columns.numbers) :
    Filters columns (fromTime.map timestampFrom)
      (fromTime.toList.map fun t : ℤ => ⟨"timestamp".toList, .ge, .number t⟩) := by
  cases fromTime with
  | none => exact .inl ⟨rfl, rfl⟩
  | some t =>
    rw [Option.map_some, timestampFrom_eq]
    exact .inr ⟨_, rfl, (reads_long lexes_timestamp .ge t).conjoins (decide_eq_true h)⟩

theorem filters_to (h : "timestamp".toList ∈ columns.numbers) :
    Filters columns (toTime.map timestampTo)
      (toTime.toList.map fun t : ℤ => ⟨"timestamp".toList, .le, .number t⟩) := by
  cases toTime with
  | none => exact .inl ⟨rfl, rfl⟩
  | some t =>
    rw [Option.map_some, timestampTo_eq]
    exact .inr ⟨_, rfl, (reads_long lexes_timestamp .le t).conjoins (decide_eq_true h)⟩

theorem built_times (h : "timestamp".toList ∈ columns.numbers) :
    Built columns ((Selection.empty.add (fromTime.map timestampFrom)).add (toTime.map timestampTo))
      (timeComparisons fromTime toTime) :=
  (built_empty.add (filters_from h)).add (filters_to h)

theorem conjoins_aggregation (h : "aggregation".toList ∈ columns.numbers) (a : AggregationType) :
    Conjoins columns (aggregationIs a) [⟨"aggregation".toList, .eq, .number (a.minutes : ℕ)⟩] := by
  rw [aggregationIs_eq]
  exact (reads_operand lexes_aggregation lexes_eq (lexes_toDigits a.minutes) rfl).conjoins
    (decide_eq_true h)

theorem filters_score (h : "anomaly_score".toList ∈ columns.numbers) :
    Filters columns (anomalyScoreFrom (.finite d)) (scoreComparisons d) := by
  by_cases hpos : 0 < d.value
  · rw [@anomalyScoreFrom_eq (.finite d) (decide_eq_true hpos), scoreComparisons, if_pos hpos]
    exact .inr ⟨_, rfl, (reads_operand lexes_anomaly_score lexes_ge (lexes_floatText d) rfl).conjoins
      (decide_eq_true h)⟩
  · have hscore : ¬ (AnomalyScore.finite d).isPositive := by
      simpa [AnomalyScore.isPositive] using hpos
    rw [anomalyScoreFrom, if_neg hscore, scoreComparisons, if_neg hpos]
    exact .inl ⟨rfl, rfl⟩

theorem holds_ge {column : List Char} (h : column ∈ columns.numbers) (q : ℚ) :
    (⟨column, .ge, .number q⟩ : Comparison).holds columns row ↔ AtLeast (row.number column) q := by
  rw [Comparison.holds, if_pos h]
  rfl

theorem holds_le {column : List Char} (h : column ∈ columns.numbers) (q : ℚ) :
    (⟨column, .le, .number q⟩ : Comparison).holds columns row ↔ AtMost (row.number column) q := by
  rw [Comparison.holds, if_pos h]
  rfl

theorem holds_eq {column : List Char} (h : column ∈ columns.numbers) (q : ℚ) :
    (⟨column, .eq, .number q⟩ : Comparison).holds columns row ↔ row.number column = some q := by
  rw [Comparison.holds, if_pos h]
  constructor
  · rintro ⟨q', hcell, rfl⟩
    exact hcell
  · intro hcell
    exact ⟨q, hcell, rfl⟩

theorem holds_times (h : "timestamp".toList ∈ columns.numbers) :
    (∀ x ∈ timeComparisons fromTime toTime, x.holds columns row) ↔ InPeriod fromTime toTime row := by
  rw [timeComparisons, List.forall_mem_append, List.forall_mem_map, List.forall_mem_map, InPeriod]
  simp only [Option.mem_toList, Option.mem_def, holds_ge h, holds_le h]

theorem holds_aggregation (h : "aggregation".toList ∈ columns.numbers)
    (aggregation : Option AggregationType) :
    (∀ x ∈ aggregationComparisons aggregation, x.holds columns row) ↔
      ∀ a ∈ aggregation, row.number "aggregation".toList = some (a.minutes : ℚ) := by
  rw [aggregationComparisons, List.forall_mem_map]
  simp only [Option.mem_toList, Option.mem_def, holds_eq h]

theorem holds_score (h : "anomaly_score".toList ∈ columns.numbers) :
    (∀ x ∈ scoreComparisons d, x.holds columns row) ↔ Anomalous (.finite d) row := by
  rw [scoreComparisons, Anomalous]
  by_cases hpos : 0 < d.value
  · rw [if_pos hpos, List.forall_mem_singleton, holds_ge h]
    exact ⟨fun hrow _ => hrow, fun hrow => hrow hpos⟩
  · rw [if_neg hpos]
    exact iff_of_true (List.forall_mem_nil _) fun hpos' => absurd hpos' hpos

/-- Rows are wanted whatever the threshold is, unless the period is empty. -/
theorem exists_row_iff (fromTime toTime : Option ℤ) (aggregation : Option AggregationType)
    (d : FloatText) :
    (∃ row, InPeriod fromTime toTime row ∧
      (∀ a ∈ aggregation, row.number "aggregation".toList = some (a.minutes : ℚ)) ∧
        Anomalous (.finite d) row) ↔ ¬ ∃ f ∈ fromTime, ∃ t ∈ toTime, t < f := by
  constructor
  · intro ⟨row, ⟨hfrom, hto⟩, _⟩ ⟨f, hf, t, ht, hlt⟩
    obtain ⟨q, hq, hle⟩ := hfrom f hf
    obtain ⟨q', hq', hle'⟩ := hto t ht
    rw [hq] at hq'
    cases hq'
    have hcast : (t : ℚ) < f := Int.cast_lt.mpr hlt
    linarith
  · intro hperiod
    have htime : ∃ τ : ℤ, (∀ f ∈ fromTime, f ≤ τ) ∧ ∀ t ∈ toTime, τ ≤ t := by
      cases fromTime with
      | none =>
        refine ⟨toTime.getD 0, ⟨fun f hf => ?_, fun t ht => ?_⟩⟩
        · cases hf
        · cases ht
          exact le_refl t
      | some f =>
        refine ⟨f, ⟨fun f' hf => ?_, fun t ht => ?_⟩⟩
        · cases hf
          exact le_refl f
        · exact not_lt.mp fun hlt => hperiod ⟨f, rfl, t, ht, hlt⟩
    obtain ⟨τ, hfrom, hto⟩ := htime
    let number : List Char → Option ℚ := fun column =>
      if column = "timestamp".toList then some (τ : ℚ)
      else if column = "aggregation".toList then aggregation.map fun a => (a.minutes : ℚ)
      else some d.value
    refine ⟨⟨number, fun _ => none⟩, ⟨fun f hf => ?_, fun t ht => ?_⟩, fun a ha => ?_, fun _ => ?_⟩
    · exact ⟨τ, rfl, Int.cast_le.mpr (hfrom f hf)⟩
    · exact ⟨τ, rfl, Int.cast_le.mpr (hto t ht)⟩
    · cases ha
      rfl
    · exact ⟨d.value, rfl, le_refl _⟩

end Numbers

section Unreadable
variable {columns : Columns} {sel : Selection} {xs : List Comparison} {rest : List Char}
  {wanted : Row → Prop}

theorem not_selects {text : List Char} {arguments : List (List Char)} (hne : text ≠ [])
    (h : parse columns text = none) : ¬ Selects columns text arguments wanted := by
  rw [Selects, if_neg hne, h]
  intro ⟨xs, _, hxs, _⟩
  cases hxs

theorem parse_infinity (hrest : Ends rest) :
    parse columns ("anomaly_score >= ".toList ++ AnomalyScore.infinity.toText ++ rest) = none := by
  have hinfinity : Lexes "Infinity".toList [.word "Infinity".toList] :=
    lexes_word (by decide) rfl rfl
  have hlex := lexes_anomaly_score.append (lexes_ge.append hinfinity)
  have htext : "anomaly_score >= ".toList ++ AnomalyScore.infinity.toText =
      "anomaly_score".toList ++ ' ' :: (['>', '='] ++ ' ' :: "Infinity".toList) :=
    filter_eq filterStarts_eq.2.2.2.1 _
  rw [parse, htext, hlex rest hrest]
  cases lex .blank rest with
  | none => rfl
  | some tokens =>
    change (conjunction (.word _ :: .operator .ge :: .word _ :: tokens)).bind _ = none
    rw [conjunction_name]
    rfl

/-- What is added to a selection with a connective. -/
theorem add_text (happend : sel.append = true) (filter : Option (List Char)) :
    ∃ rest, Ends rest ∧ (sel.add filter).text = sel.text ++ rest := by
  cases filter with
  | none => exact ⟨[], .inl rfl, (List.append_nil _).symm⟩
  | some p =>
    refine ⟨andText ++ p, .inr ⟨_, rfl⟩, ?_⟩
    rw [Selection.add, Selection.textWith, if_pos happend, List.append_assoc]

/-- The name of a column right after the minutes of the aggregation. -/
theorem parse_run_together (a : AggregationType) (cs : List Char) {c : Char} (hc : c = 'a' ∨ c = 'i') :
    parse columns (aggregationIs a ++ c :: cs) = none := by
  have hlex := lexes_aggregation.append lexes_eq
  have htext : aggregationIs a ++ c :: cs = "aggregation =".toList ++
      (' ' :: (Nat.toDigits 10 a.minutes ++ c :: cs)) := rfl
  have hwhole : lex (.whole a.minutes) (c :: cs) = none := by
    rcases hc with rfl | rfl
    · exact lex_whole_word (by decide) (by decide) (by decide) (by decide) (by decide)
    · exact lex_whole_word (by decide) (by decide) (by decide) (by decide) (by decide)
  rw [parse, htext]
  refine (congrArg (Option.bind · _) (hlex _ (.inr ⟨_, rfl⟩))).trans ?_
  rw [lex_cons (by decide) rfl, lex_blank_toDigits, hwhole]
  rfl

end Unreadable

section Queries
variable {columns : Columns} {sel : Selection} {column : List Char} {xs : List Comparison}
  {fromTime toTime : Option ℤ}

/-- An id is read as itself, or as a condition for a period in which no row is wanted anyway. -/
def Harmless (columns : Columns) (column : List Char) (fromTime toTime : Option ℤ)
    (id : List Char) : Prop :=
  Clean id ∨
    ((parse columns (idIs column id)).isSome ∧ ∃ f ∈ fromTime, ∃ t ∈ toTime, t < f)

theorem Built.selects_add_id (h : Built columns sel xs) (hcolumn : Lexes column [.word column])
    (hname : columnName column = column) (htexts : column ∈ columns.texts)
    (hnumbers : column ∉ columns.numbers) (hxs : ∀ x ∈ xs, x.column ∈ columns.numbers)
    (hrows : (∃ row, ∀ x ∈ xs, x.holds columns row) ↔ ¬ ∃ f ∈ fromTime, ∃ t ∈ toTime, t < f)
    (id : Option (List Char)) :
    Selects columns (sel.add (id.map (idIs column))).text []
        (fun row => (∀ x ∈ xs, x.holds columns row) ∧ ∀ i ∈ id, row.text column = some i) ↔
      ∀ i ∈ id, Harmless columns column fromTime toTime i := by
  cases id with
  | none =>
    refine iff_of_true (h.selects_iff.mpr fun row => ?_) fun i hi => by cases hi
    simp
  | some id =>
    have hid := @Built.selects_id _ _ _ id _ h hcolumn hname htexts hnumbers hxs
    rw [hrows, not_not] at hid
    simp only [Option.mem_def, Option.some.injEq, forall_eq']
    exact hid

theorem columns_times (h : "timestamp".toList ∈ columns.numbers) :
    ∀ x ∈ timeComparisons fromTime toTime, x.column ∈ columns.numbers := by
  rw [timeComparisons, List.forall_mem_append, List.forall_mem_map, List.forall_mem_map]
  exact ⟨fun _ _ => h, fun _ _ => h⟩

theorem columns_score (h : "anomaly_score".toList ∈ columns.numbers) (d : FloatText) :
    ∀ x ∈ scoreComparisons d, x.column ∈ columns.numbers := by
  rw [scoreComparisons]
  split
  · exact List.forall_mem_singleton.mpr h
  · exact List.forall_mem_nil _

/-- A text with an infinite threshold is not read. -/
theorem not_selects_infinity (h : Built columns sel xs) (filter : Option (List Char))
    {arguments : List (List Char)} {wanted : Row → Prop} :
    ¬ Selects columns ((sel.add (anomalyScoreFrom .infinity)).add filter).text arguments wanted := by
  obtain ⟨rest, hrest, htext⟩ := @add_text (sel.add (anomalyScoreFrom .infinity)) rfl filter
  have hparse : parse columns (sel.textWith ("anomaly_score >= ".toList ++
      AnomalyScore.infinity.toText ++ rest)) = none := by
    rw [h.parse_textWith, parse_infinity hrest]
    rfl
  have heq : ((sel.add (anomalyScoreFrom .infinity)).add filter).text =
      sel.textWith ("anomaly_score >= ".toList ++ AnomalyScore.infinity.toText ++ rest) := by
    rw [htext]
    simp only [Selection.add, Selection.textWith, anomalyScoreFrom, AnomalyScore.isPositive,
      if_true, List.append_assoc]
  rw [heq]
  apply not_selects _ hparse
  simp [Selection.textWith]

theorem getMetricData_selects_iff (metricId : Option (List Char)) (fromTime toTime : Option ℤ)
    (anomalyScore : AnomalyScore) :
    Selects metricDataColumns (getMetricData metricId fromTime toTime anomalyScore) []
        (MetricDataWanted metricId fromTime toTime anomalyScore) ↔
      anomalyScore ≠ .infinity ∧
        ∀ id ∈ metricId, Harmless metricDataColumns "metric_id".toList fromTime toTime id := by
  have htimestamp : "timestamp".toList ∈ metricDataColumns.numbers := by decide
  have hscore : "anomaly_score".toList ∈ metricDataColumns.numbers := by decide
  have htimes := @built_times metricDataColumns fromTime toTime htimestamp
  cases anomalyScore with
  | infinity => exact iff_of_false (not_selects_infinity htimes _) fun h => h.1 rfl
  | finite d =>
    have hall := htimes.add (@filters_score _ d hscore)
    have hrows : (∃ row, ∀ x ∈ timeComparisons fromTime toTime ++ scoreComparisons d,
        x.holds metricDataColumns row) ↔ ¬ ∃ f ∈ fromTime, ∃ t ∈ toTime, t < f := by
      rw [← exists_row_iff fromTime toTime none d]
      simp only [List.forall_mem_append, holds_times htimestamp, holds_score hscore]
      simp
    have hadd := hall.selects_add_id lexes_metric_id (by decide) (by decide) (by decide)
      (List.forall_mem_append.mpr ⟨columns_times htimestamp, columns_score hscore d⟩) hrows metricId
    refine Iff.trans ?_ (hadd.trans (by simp))
    apply selects_congr
    intro row
    rw [List.forall_mem_append, holds_times htimestamp, holds_score hscore, MetricDataWanted, and_assoc]

/-- The aggregation comes first in the selection, and another filter after it. -/
def RunsTogether (instanceId : Option (List Char)) (aggregation : Option AggregationType)
    (fromTime toTime : Option ℤ) (anomalyScore : AnomalyScore) : Prop :=
  aggregation.isSome ∧ fromTime = none ∧ toTime = none ∧
    (anomalyScore.isPositive ∨ instanceId.isSome)

/-- The selection with a connective before each filter but the first. -/
def joinedInstanceData (instanceId : Option (List Char)) (aggregation : Option AggregationType)
    (fromTime toTime : Option ℤ) (anomalyScore : AnomalyScore) : List Char :=
  (((((Selection.empty.add (fromTime.map timestampFrom)).add
    (toTime.map timestampTo)).add (aggregation.map aggregationIs)).add
    (anomalyScoreFrom anomalyScore)).add (instanceId.map instanceIdIs)).text

theorem addAggregation_of_append (happend : sel.append = true) (filter : Option (List Char)) :
    sel.addAggregation filter = sel.add filter := by
  cases filter with
  | none => rfl
  | some p => rw [Selection.addAggregation, Selection.add, happend]

theorem getInstanceData_eq (instanceId : Option (List Char)) (aggregation : Option AggregationType)
    (fromTime toTime : Option ℤ) (anomalyScore : AnomalyScore)
    (h : ¬ RunsTogether instanceId aggregation fromTime toTime anomalyScore) :
    getInstanceData instanceId aggregation fromTime toTime anomalyScore =
      joinedInstanceData instanceId aggregation fromTime toTime anomalyScore := by
  rw [getInstanceData, joinedInstanceData]
  cases aggregation with
  | none => rfl
  | some a =>
    cases toTime with
    | some t => rw [addAggregation_of_append rfl]
    | none =>
      cases fromTime with
      | some f => rw [addAggregation_of_append rfl]
      | none =>
        have hlast : ¬ (anomalyScore.isPositive = true ∨ instanceId.isSome = true) :=
          fun hlast => h ⟨rfl, rfl, rfl, hlast⟩
        obtain ⟨hscore, hid⟩ := not_or.mp hlast
        rw [anomalyScoreFrom, if_neg hscore, Option.not_isSome_iff_eq_none.mp hid]
        rfl

theorem not_selects_of_runsTogether {instanceId : Option (List Char)}
    {aggregation : Option AggregationType} {anomalyScore : AnomalyScore} {wanted : Row → Prop}
    (h : RunsTogether instanceId aggregation fromTime toTime anomalyScore) :
    ¬ Selects columns (getInstanceData instanceId aggregation fromTime toTime anomalyScore) []
      wanted := by
  obtain ⟨haggregation, rfl, rfl, hlast⟩ := h
  obtain ⟨a, rfl⟩ := Option.isSome_iff_exists.mp haggregation
  have htext : ∃ c cs, (c = 'a' ∨ c = 'i') ∧
      getInstanceData instanceId (some a) none none anomalyScore = aggregationIs a ++ c :: cs := by
    rw [getInstanceData, anomalyScoreFrom]
    by_cases hscore : anomalyScore.isPositive
    · rw [if_pos hscore]
      obtain ⟨rest, _, htext⟩ := @add_text
        (((Selection.empty.add none).add none).addAggregation (some (aggregationIs a)) |>.add
          (some ("anomaly_score >= ".toList ++ anomalyScore.toText))) rfl (instanceId.map instanceIdIs)
      refine ⟨'a', "nomaly_score >= ".toList ++ (anomalyScore.toText ++ rest), .inl rfl,
        htext.trans ?_⟩
      exact List.append_assoc (aggregationIs a)
        ("anomaly_score >= ".toList ++ anomalyScore.toText) rest
    · obtain ⟨id, rfl⟩ := Option.isSome_iff_exists.mp (hlast.resolve_left hscore)
      rw [if_neg hscore]
      exact ⟨'i', _, .inr rfl, rfl⟩
  obtain ⟨c, cs, hc, htext⟩ := htext
  rw [htext]
  exact not_selects (List.append_ne_nil_of_right_ne_nil _ (List.cons_ne_nil c cs))
    (parse_run_together a cs hc)

theorem joinedInstanceData_selects_iff (instanceId : Option (List Char))
    (aggregation : Option AggregationType) (fromTime toTime : Option ℤ) (anomalyScore : AnomalyScore) :
    Selects instanceDataColumns
        (joinedInstanceData instanceId aggregation fromTime toTime anomalyScore) []
        (InstanceDataWanted instanceId aggregation fromTime toTime anomalyScore) ↔
      anomalyScore ≠ .infinity ∧
        ∀ id ∈ instanceId, Harmless instanceDataColumns "instance_id".toList fromTime toTime id := by
  have htimestamp : "timestamp".toList ∈ instanceDataColumns.numbers := by decide
  have haggregation : "aggregation".toList ∈ instanceDataColumns.numbers := by decide
  have hscore : "anomaly_score".toList ∈ instanceDataColumns.numbers := by decide
  have hfilter : Filters instanceDataColumns (aggregation.map aggregationIs)
      (aggregationComparisons aggregation) := by
    cases aggregation with
    | none => exact .inl ⟨rfl, rfl⟩
    | some a => exact .inr ⟨_, rfl, conjoins_aggregation haggregation a⟩
  have htimes := (@built_times instanceDataColumns fromTime toTime htimestamp).add hfilter
  cases anomalyScore with
  | infinity => exact iff_of_false (not_selects_infinity htimes _) fun h => h.1 rfl
  | finite d =>
    have hall := htimes.add (@filters_score _ d hscore)
    have hrows : (∃ row, ∀ x ∈ timeComparisons fromTime toTime ++
        aggregationComparisons aggregation ++ scoreComparisons d,
        x.holds instanceDataColumns row) ↔ ¬ ∃ f ∈ fromTime, ∃ t ∈ toTime, t < f := by
      rw [← exists_row_iff fromTime toTime aggregation d]
      simp only [List.forall_mem_append, holds_times htimestamp, holds_aggregation haggregation,
        holds_score hscore, and_assoc]
    have hcolumns : ∀ x ∈ timeComparisons fromTime toTime ++ aggregationComparisons aggregation ++
        scoreComparisons d, x.column ∈ instanceDataColumns.numbers := by
      refine List.forall_mem_append.mpr ⟨List.forall_mem_append.mpr ⟨columns_times htimestamp, ?_⟩,
        columns_score hscore d⟩
      exact List.forall_mem_map.mpr fun _ _ => haggregation
    have hadd := hall.selects_add_id lexes_instance_id (by decide) (by decide) (by decide) hcolumns
      hrows instanceId
    refine Iff.trans ?_ (hadd.trans (by simp))
    apply selects_congr
    intro row
    simp only [List.forall_mem_append, holds_times htimestamp, holds_aggregation haggregation,
      holds_score hscore, InstanceDataWanted, and_assoc]

theorem getInstanceData_selects_iff (instanceId : Option (List Char))
    (aggregation : Option AggregationType) (fromTime toTime : Option ℤ) (anomalyScore : AnomalyScore) :
    Selects instanceDataColumns (getInstanceData instanceId aggregation fromTime toTime anomalyScore) []
        (InstanceDataWanted instanceId aggregation fromTime toTime anomalyScore) ↔
      anomalyScore ≠ .infinity ∧
        (∀ id ∈ instanceId, Harmless instanceDataColumns "instance_id".toList fromTime toTime id) ∧
        ¬ RunsTogether instanceId aggregation fromTime toTime anomalyScore := by
  by_cases h : RunsTogether instanceId aggregation fromTime toTime anomalyScore
  · exact iff_of_false (not_selects_of_runsTogether h) fun hall => hall.2.2 h
  · rw [getInstanceData_eq _ _ _ _ _ h, joinedInstanceData_selects_iff]
    simp [h]

/-- A comparison with an argument. -/
structure Bound where
  column : List Char
  op : Operator
  argument : List Char

def Bound.open (b : Bound) : Comparison := ⟨b.column, b.op, .parameter⟩

def Bound.closed (b : Bound) : Comparison := ⟨b.column, b.op, .bound b.argument⟩

theorem bindArguments_bounds (bs : List Bound) :
    bindArguments (bs.map Bound.open) (bs.map Bound.argument) = some (bs.map Bound.closed) := by
  induction bs with
  | nil => rfl
  | cons b bs ih =>
    change (bindArguments (bs.map Bound.open) (bs.map Bound.argument)).map _ = _
    rw [ih]
    rfl

theorem filters_bound {p w : List Char} {op : Operator} (hw : Lexes w [.word w])
    (hname : columnName w = w) (hcolumn : w ∈ columns.numbers ∨ w ∈ columns.texts)
    (hp : p = w ++ ' ' :: (opText op ++ ' ' :: ['?'])) {α : Type} (value : Option α)
    (argument : α → List Char) :
    Filters columns (value.map fun _ => p)
      ((value.toList.map fun x => (⟨w, op, argument x⟩ : Bound)).map Bound.open) := by
  cases value with
  | none => exact .inl ⟨rfl, rfl⟩
  | some x =>
    have h := reads_operand hw (lexes_opText op) lexes_parameter rfl
    rw [hname, ← hp] at h
    exact .inr ⟨p, rfl, h.conjoins (decide_eq_true hcolumn)⟩

theorem Built.selects_bounds {bs : List Bound} {wanted : Row → Prop}
    (h : Built columns sel (bs.map Bound.open))
    (hrows : ∀ row, (∀ b ∈ bs, b.closed.holds columns row) ↔ wanted row) :
    Selects columns sel.text (bs.map Bound.argument) wanted := by
  rcases h with ⟨htext, _, hnil⟩ | ⟨_, hsel⟩
  · obtain rfl : bs = [] := List.map_eq_nil_iff.mp hnil
    rw [Selects, if_pos htext]
    exact ⟨rfl, fun row => (hrows row).mp (List.forall_mem_nil _)⟩
  · rw [Selects, if_neg hsel.ne_nil]
    refine ⟨_, _, hsel.alone, bindArguments_bounds bs, fun row => ?_⟩
    rw [List.forall_mem_map]
    exact hrows row

def annotationBounds (server : Option (List Char)) (fromTime toTime : Option ℤ) : List Bound :=
  (fromTime.toList.map fun t => ⟨"timestamp".toList, .ge, longText t⟩) ++
    (toTime.toList.map fun t => ⟨"timestamp".toList, .le, longText t⟩) ++
      server.toList.map fun id => ⟨"instance_id".toList, .eq, id⟩

theorem holds_long_ge (h : column ∈ columns.numbers) (t : ℤ) (row : Row) :
    (⟨column, .ge, longText t⟩ : Bound).closed.holds columns row ↔ AtLeast (row.number column) t := by
  rw [Bound.closed, Comparison.holds, if_pos h, AtLeast]
  simp only [holdsNumber, numberOf_longText]
  rfl

theorem holds_long_le (h : column ∈ columns.numbers) (t : ℤ) (row : Row) :
    (⟨column, .le, longText t⟩ : Bound).closed.holds columns row ↔ AtMost (row.number column) t := by
  rw [Bound.closed, Comparison.holds, if_pos h, AtMost]
  simp only [holdsNumber, numberOf_longText]
  rfl

theorem holds_bound_eq (h : column ∉ columns.numbers) (u : List Char) (row : Row) :
    (⟨column, .eq, u⟩ : Bound).closed.holds columns row ↔ row.text column = some u := by
  rw [Bound.closed, Comparison.holds, if_neg h]
  constructor
  · rintro ⟨t, htext, rfl⟩
    exact htext
  · intro htext
    exact ⟨u, htext, rfl⟩

/-- Arguments are compared as they are, whatever they hold. -/
theorem getAnnotations_selects (server : Option (List Char)) (fromTime toTime : Option ℤ) :
    Selects annotationColumns (getAnnotations server fromTime toTime).1
      (getAnnotations server fromTime toTime).2 (AnnotationsWanted server fromTime toTime) := by
  have htimestamp : "timestamp".toList ∈ annotationColumns.numbers := by decide
  have hnumbers : "instance_id".toList ∉ annotationColumns.numbers := by decide
  have htexts : "instance_id".toList ∈ annotationColumns.texts := by decide
  obtain ⟨-, -, -, -, hname, hname'⟩ := filterStarts_eq
  have hfrom := @filters_bound annotationColumns "timestamp >= ?".toList _ .ge lexes_timestamp hname
    (.inl htimestamp) rfl _ fromTime longText
  have hto := @filters_bound annotationColumns "timestamp <= ?".toList _ .le lexes_timestamp hname
    (.inl htimestamp) rfl _ toTime longText
  have hserver := @filters_bound annotationColumns "instance_id = ?".toList _ .eq lexes_instance_id
    hname' (.inr htexts) rfl _ server id
  have hbuilt := ((built_empty.add hfrom).add hto).add hserver
  rw [List.nil_append, ← List.map_append, ← List.map_append] at hbuilt
  have hselects := @Built.selects_bounds _ _ (annotationBounds server fromTime toTime)
    (AnnotationsWanted server fromTime toTime) hbuilt (by
      intro row
      rw [annotationBounds, List.forall_mem_append, List.forall_mem_append, List.forall_mem_map,
        List.forall_mem_map, List.forall_mem_map, AnnotationsWanted, InPeriod]
      simp only [Option.mem_toList, Option.mem_def, holds_long_ge htimestamp,
        holds_long_le htimestamp, holds_bound_eq hnumbers])
  have harguments : (annotationBounds server fromTime toTime).map Bound.argument =
      (getAnnotations server fromTime toTime).2 := by
    cases fromTime <;> cases toTime <;> cases server <;> rfl
  rw [← harguments]
  exact hselects

/-- Exactly with these arguments every query selects the rows that are wanted. -/
theorem queries_select_iff (id server : Option (List Char)) (aggregation : Option AggregationType)
    (fromTime toTime : Option ℤ) (anomalyScore : AnomalyScore) :
    (Selects metricDataColumns (getMetricData id fromTime toTime anomalyScore) []
        (MetricDataWanted id fromTime toTime anomalyScore) ↔
      anomalyScore ≠ .infinity ∧
        ∀ i ∈ id, Harmless metricDataColumns "metric_id".toList fromTime toTime i) ∧
    (Selects instanceDataColumns (getInstanceData id aggregation fromTime toTime anomalyScore) []
        (InstanceDataWanted id aggregation fromTime toTime anomalyScore) ↔
      anomalyScore ≠ .infinity ∧
        (∀ i ∈ id, Harmless instanceDataColumns "instance_id".toList fromTime toTime i) ∧
        ¬ RunsTogether id aggregation fromTime toTime anomalyScore) ∧
    Selects annotationColumns (getAnnotations server fromTime toTime).1
      (getAnnotations server fromTime toTime).2 (AnnotationsWanted server fromTime toTime) :=
  ⟨getMetricData_selects_iff id fromTime toTime anomalyScore,
    getInstanceData_selects_iff id aggregation fromTime toTime anomalyScore,
    getAnnotations_selects server fromTime toTime⟩

def oneHalf : AnomalyScore := .finite ⟨0, ['5'], none, List.forall_mem_singleton.mpr rfl⟩

/-- The hourly data with a threshold of one half, for which the condition is not well formed. -/
theorem hourly_anomalies_not_selected :
    String.ofList (getInstanceData none (some .Hour) none none oneHalf) =
        "aggregation = 5anomaly_score >= 0.5" ∧
      ¬ Selects instanceDataColumns (getInstanceData none (some .Hour) none none oneHalf) []
        (InstanceDataWanted none (some .Hour) none none oneHalf) := by
  refine ⟨by decide +kernel, not_selects_of_runsTogether ⟨rfl, rfl, rfl, .inl ?_⟩⟩
  decide +kernel

end Queries

end NumentaApps.MobileCore.CoreDatabaseImpl
