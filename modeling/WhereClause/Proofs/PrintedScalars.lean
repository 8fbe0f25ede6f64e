/-
**Scalars that are printed and read again.**

Integers, dates and times are printed in one form each.  The reader takes more forms than this one:
signs, zeros in front, numbers of one digit, blanks before every number.  But it takes the printed
form too, with its ends included — the least integers, years with a sign, the leap second — and what
it reads is the value that was printed.  So reading, printing and reading again is reading once.

Main definitions:

* `WhereClause.DataType.exact` — the types of integers, dates and times;
* `WhereClause.Value.unquoted` — the text shown for a value, without the quotes around it.

Main results:

* `WhereClause.Calendar.readYear_yearText` — a year is read with its sign, whatever its length;
* `WhereClause.Date.read_text`, `WhereClause.TimeOfDay.read_text`, `WhereClause.DateTime.read_text`
  — dates and times are read as they are printed;
* `WhereClause.castScalar_unquoted` — **what is printed of a scalar is read as this scalar**.
-/

import WhereClause.Proofs.CastReading
import WhereClause.Proofs.Digits

set_option relaxedAutoImplicit false
set_option autoImplicit false

namespace WhereClause

open Text

/-! ### Dates -/

namespace Calendar

/-- A hyphen ends a run of digits. -/
theorem stops_hyphen (rest : List Char) : Stops ('-' :: rest) := by
  rintro c ⟨⟩
  rfl

/-- The years of the calendar are within the bounds of the reader. -/
theorem year_mem_bounds {year : Int} (h : year.natAbs ≤ 262143) :
    -(Int.pow 2 31) ≤ year ∧ year < Int.pow 2 31 := by
  have hpow : Int.pow 2 31 = 2147483648 := by decide
  omega

section Years

variable {n : Nat} {digits rest : List Char}

/-- A year behind a minus sign, however many digits it has. -/
theorem readYear_minus (hread : readUnsigned digits.length digits = .ok (n, rest))
    (hbounds : -(Int.pow 2 31) ≤ -(n : Int) ∧ -(n : Int) < Int.pow 2 31) :
    readYear ('-' :: digits) = .ok (-(n : Int), rest) := by
  have hblank : isBlank '-' = false := rfl
  simp only [readYear, trimStart_of_not_isBlank hblank, hread, ok_bind, pure, Except.pure]
  exact if_pos hbounds

/-- A year behind a plus sign, however many digits it has. -/
theorem readYear_plus (hread : readUnsigned digits.length digits = .ok (n, rest))
    (hbounds : -(Int.pow 2 31) ≤ (n : Int) ∧ (n : Int) < Int.pow 2 31) :
    readYear ('+' :: digits) = .ok ((n : Int), rest) := by
  have hblank : isBlank '+' = false := rfl
  simp only [readYear, trimStart_of_not_isBlank hblank, hread, ok_bind, pure, Except.pure]
  exact if_pos hbounds

/-- A year without a sign, which has at most four digits. -/
theorem readYear_of_writes (h : Writes digits n)
    (hread : readUnsigned 4 (digits ++ rest) = .ok (n, rest))
    (hbounds : -(Int.pow 2 31) ≤ (n : Int) ∧ (n : Int) < Int.pow 2 31) :
    readYear (digits ++ rest) = .ok ((n : Int), rest) := by
  have htrim := trimStart_of_writes h rest
  obtain ⟨c, digits, rfl, hc⟩ := h.exists_cons
  have hsign := ne_sign_of_isDigit hc
  rw [readYear, htrim]
  split
  next heq => exact absurd (List.cons.inj heq).1 hsign.1
  next heq => exact absurd (List.cons.inj heq).1 hsign.2
  next =>
    simp only [hread, ok_bind, pure, Except.pure]
    exact if_pos hbounds

end Years

/-- **A year is read as it is printed**, if a hyphen follows. -/
theorem readYear_yearText {year : Int} (h : year.natAbs ≤ 262143) (rest : List Char) :
    readYear ((Date.yearText year).toList ++ '-' :: rest) = .ok (year, '-' :: rest) := by
  have hwrites := writes_padded 4 year.natAbs
  have hlargest : year.natAbs ≤ largest := Nat.le_trans h (by decide)
  have hbounds := year_mem_bounds h
  -- behind a sign, digits are read up to the hyphen
  have hsigned : readUnsigned ((padded 4 year.natAbs).toList ++ '-' :: rest).length
      ((padded 4 year.natAbs).toList ++ '-' :: rest) = .ok (year.natAbs, '-' :: rest) :=
    readUnsigned_of_writes hwrites (by simp) (.inr (stops_hyphen rest)) hlargest
  by_cases hnegative : year < 0
  · have htext : (Date.yearText year).toList ++ '-' :: rest =
        '-' :: ((padded 4 year.natAbs).toList ++ '-' :: rest) := by
      simp [Date.yearText, hnegative]
    have habs : -(year.natAbs : Int) = year := by omega
    rw [htext, readYear_minus hsigned (by rwa [habs]), habs]
  have habs : (year.natAbs : Int) = year := by omega
  by_cases hlong : 9999 < year
  · have htext : (Date.yearText year).toList ++ '-' :: rest =
        '+' :: ((padded 4 year.natAbs).toList ++ '-' :: rest) := by
      simp [Date.yearText, hnegative, hlong]
    rw [htext, readYear_plus hsigned (by rwa [habs]), habs]
  · -- four digits, and no sign
    have hlength : (padded 4 year.natAbs).toList.length = 4 :=
      length_padded ((Nat.length_toDigits_le_iff (by decide) (by decide)).2 (by omega))
    have hread : readUnsigned 4 ((padded 4 year.natAbs).toList ++ '-' :: rest) =
        .ok (year.natAbs, '-' :: rest) :=
      readUnsigned_of_writes hwrites (Nat.le_of_eq hlength) (.inl hlength) hlargest
    have htext : Date.yearText year = padded 4 year.natAbs := by
      simp [Date.yearText, hnegative, hlong]
    rw [htext, readYear_of_writes hwrites hread (by rwa [habs]), habs]

end Calendar

open Calendar

section Temporal

variable (d : Date) (t : TimeOfDay) (x : DateTime) (rest : List Char)

/-- A month has at most 31 days. -/
theorem Date.day_le : d.day ≤ 31 := by
  refine Nat.le_trans d.day_mem.2 ?_
  unfold Date.daysIn
  split <;> split <;> decide

/-- The numbers of a date are read as they are printed. -/
theorem Date.readDateParts_text :
    readDateParts (d.text.toList ++ rest) = .ok ((d.year, d.month, d.day), rest) := by
  have hbound : d.year.natAbs ≤ 262143 := by
    have := d.year_mem
    omega
  have hyear := readYear_yearText hbound
  have hmonth := readNumber_padded d.month_mem.1 d.month_mem.2 (by decide)
  have hday := readNumber_padded d.day_mem.1 d.day_le (by decide)
  have htext : d.text.toList ++ rest = (yearText d.year).toList ++
      '-' :: ((padded 2 d.month).toList ++ '-' :: ((padded 2 d.day).toList ++ rest)) := by
    simp [Date.text]
  rw [htext, readDateParts]
  simp only [hyear, hmonth, hday, readMark, ok_bind, if_true]
  rfl

/-- The numbers of a time are read as they are printed. -/
theorem TimeOfDay.readTimeParts_text :
    readTimeParts (t.text.toList ++ rest) = .ok ((t.hour, t.minute, t.second), rest) := by
  have hhour := readNumber_padded (Nat.zero_le _) (Nat.le_of_lt_succ t.hour_lt) (by decide)
  have hminute := readNumber_padded (Nat.zero_le _) (Nat.le_of_lt_succ t.minute_lt) (by decide)
  have hsecond := readNumber_padded (Nat.zero_le _) t.second_le (by decide)
  have htext : t.text.toList ++ rest = (padded 2 t.hour).toList ++
      ':' :: ((padded 2 t.minute).toList ++ ':' :: ((padded 2 t.second).toList ++ rest)) := by
    simp [TimeOfDay.text]
  rw [htext, readTimeParts]
  simp only [hhour, hminute, hsecond, readMark, ok_bind, if_true]
  rfl

/-- A printed time begins with a digit. -/
theorem TimeOfDay.trimStart_text : trimStart t.text.toList = t.text.toList := by
  have htext : t.text.toList = (padded 2 t.hour).toList ++
      (":" ++ padded 2 t.minute ++ ":" ++ padded 2 t.second).toList := by
    simp [TimeOfDay.text]
  rw [htext]
  exact trimStart_of_writes (writes_padded 2 t.hour) _

/-- **A date is read as it is printed.** -/
theorem Date.read_text : Date.read d.text.toList = .ok d := by
  have hparts := d.readDateParts_text []
  rw [List.append_nil] at hparts
  simp only [Date.read, hparts, readEnd, ok_bind, Date.of?_self]
  rfl

/-- **A time of day is read as it is printed.** -/
theorem TimeOfDay.read_text : TimeOfDay.read t.text.toList = .ok t := by
  have hparts := t.readTimeParts_text []
  rw [List.append_nil] at hparts
  simp only [TimeOfDay.read, hparts, readEnd, ok_bind, TimeOfDay.of?_self]
  rfl

/-- **A date and time is read as it is printed**, with a blank between the two. -/
theorem DateTime.read_text : DateTime.read (x.text " ").toList = .ok x := by
  have hdate := x.date.readDateParts_text (' ' :: x.time.text.toList)
  have htime := x.time.readTimeParts_text []
  have htrim : trimStart (' ' :: x.time.text.toList) = x.time.text.toList :=
    (trimStart_of_isBlank (by decide) _).trans x.time.trimStart_text
  have htext : (x.text " ").toList = x.date.text.toList ++ ' ' :: x.time.text.toList := by
    simp [DateTime.text]
  rw [List.append_nil] at htime
  simp only [htext, DateTime.read, hdate, htrim, htime, readEnd, ok_bind, Date.of?_self,
    TimeOfDay.of?_self]
  rfl

end Temporal

/-! ### Values -/

/-- The types whose values are printed in one form: integers, dates and times. -/
def DataType.exact : List DataType := [.int, .int64, .uint, .uint64, .date, .time, .dateTime]

/-- The text shown for a value, without the single quotes around it, if there are any. -/
def Value.unquoted (v : Value) : List Char :=
  (enclosed? '\x27' '\x27' v.display.toList).getD v.display.toList

theorem Value.unquoted_of_quotes {v : Value} {s : String} (h : v.display = "'" ++ s ++ "'") :
    v.unquoted = s.toList := by
  have hshown : v.display.toList = '\x27' :: (s.toList ++ ['\x27']) := by simp [h]
  rw [Value.unquoted, hshown, enclosed?_append]
  rfl

theorem Value.unquoted_of_head {v : Value} (h : v.display.toList.head? ≠ some '\x27') :
    v.unquoted = v.display.toList := by
  cases henclosed : enclosed? '\x27' '\x27' v.display.toList with
  | none => rw [Value.unquoted, henclosed, Option.getD_none]
  | some inner =>
      rw [eq_of_enclosed?_eq_some henclosed] at h
      exact absurd rfl h

/-- No number begins with a quote. -/
theorem head?_decimalInt (z : Int) : (decimalInt z).toList.head? ≠ some '\x27' := by
  cases z with
  | ofNat n =>
      intro hhead
      rw [decimalInt, decimal, String.toList_ofList] at hhead
      have hdigit := (writes_toDigits n).isDigit _ (List.mem_of_mem_head? hhead)
      cases hdigit
  | negSucc n => simp [decimalInt]

/-- An integer is shown as its digits. -/
theorem Value.unquoted_of_decimalInt {v : Value} {z : Int} (h : v.display = decimalInt z) :
    v.unquoted = (decimalInt z).toList := by
  rw [unquoted_of_head (by rw [h]; exact head?_decimalInt z), h]

/-- Every integer is read at its own width. -/
theorem readScalar_int (n : Int32) :
    readScalar .int (decimalInt n.toInt).toList = .ok (.int n) := by
  have hbelow : -((Nat.pow 2 31 : Nat) : Int) ≤ n.toInt := n.le_toInt
  have hgreatest : n.toInt ≤ ((Nat.pow 2 31 - 1 : Nat) : Int) := n.toInt_le
  simp only [readScalar, Integer.readSigned_decimalInt hbelow hgreatest, Int32.ofInt_toInt]

theorem readScalar_int64 (n : Int64) :
    readScalar .int64 (decimalInt n.toInt).toList = .ok (.int64 n) := by
  have hbelow : -((Nat.pow 2 63 : Nat) : Int) ≤ n.toInt := n.le_toInt
  have hgreatest : n.toInt ≤ ((Nat.pow 2 63 - 1 : Nat) : Int) := n.toInt_le
  simp only [readScalar, Integer.readSigned_decimalInt hbelow hgreatest, Int64.ofInt_toInt]

/-- And so is every natural number, with either of the two names. -/
theorem readScalar_uint {type : DataType} (htype : type = .uint ∨ type = .uint64) (n : UInt64) :
    readScalar type (decimal n.toNat).toList = .ok (.uint n) := by
  have hgreatest : n.toNat ≤ Nat.pow 2 64 - 1 := Nat.le_pred_of_lt n.toNat_lt
  have hwrites : Writes (decimal n.toNat).toList n.toNat := by
    rw [decimal, String.toList_ofList]
    exact writes_toDigits n.toNat
  rcases htype with rfl | rfl <;>
    simp only [readScalar, Integer.readUnsigned_of_writes hwrites hgreatest, UInt64.ofNat_toNat]

/-- **What is shown for an integer, a date or a time is read as its value.** -/
theorem readScalar_unquoted {type : DataType} (htype : type ∈ DataType.exact) {v : Value}
    (h : type.admits v = true) : readScalar type v.unquoted = .ok v := by
  cases type with
  | string | float | float64 => exact absurd htype (by decide)
  | int =>
      cases v <;> cases h
      next n =>
        rw [Value.unquoted_of_decimalInt (z := n.toInt) rfl]
        exact readScalar_int n
  | int64 =>
      cases v <;> cases h
      next n =>
        rw [Value.unquoted_of_decimalInt (z := n.toInt) rfl]
        exact readScalar_int64 n
  | uint | uint64 =>
      cases v <;> cases h
      next n =>
        rw [Value.unquoted_of_decimalInt (z := Int.ofNat n.toNat) rfl]
        exact readScalar_uint (by decide) n
  | date =>
      cases v <;> cases h
      next d =>
        rw [Value.unquoted_of_quotes (s := d.text) rfl]
        simp only [readScalar, d.read_text]
  | time =>
      cases v <;> cases h
      next t =>
        rw [Value.unquoted_of_quotes (s := t.text) rfl]
        simp only [readScalar, t.read_text]
  | dateTime =>
      cases v <;> cases h
      next x =>
        rw [Value.unquoted_of_quotes (s := x.text " ") rfl]
        simp only [readScalar, x.read_text]

/-- **Scalars survive being printed and read again.**  For the types of integers, dates and times,
every value of the type is read from some token: the one that shows it.  So whatever token gave a
value, the text shown for it gives the same value. -/
theorem castScalar_unquoted {type : DataType} (htype : type ∈ DataType.exact) (v : Value) :
    ((∃ token, castScalar token (some type) = .ok v) ↔ type.admits v = true) ∧
      (type.admits v = true → castScalar v.unquoted (some type) = .ok v) ∧
      ∀ token, castScalar token (some type) = .ok v →
        castScalar v.unquoted (some type) = .ok v := by
  have hprinted : type.admits v = true → castScalar v.unquoted (some type) = .ok v := by
    intro hv
    simp only [castScalar, readScalar_unquoted htype hv]
  have hadmits : ∀ token, castScalar token (some type) = .ok v → type.admits v = true :=
    fun _ htoken => admits_of_castScalar htoken
  refine ⟨⟨?_, fun hv => ⟨_, hprinted hv⟩⟩, hprinted, fun token htoken => ?_⟩
  · rintro ⟨token, htoken⟩
    exact hadmits token htoken
  · exact hprinted (hadmits token htoken)

/-- A year before 0 and a leap second, written with fewer digits than they are printed with. -/
theorem castScalar_unquoted_leap_second :
    ∃ x : DateTime, castScalar " -1-2-3 4:5:60".toList (some .dateTime) = .ok (.dateTime x) ∧
      (Value.dateTime x).unquoted = "-0001-02-03 04:05:60".toList ∧
      castScalar "-0001-02-03 04:05:60".toList (some .dateTime) = .ok (.dateTime x) := by
  have hread : castScalar " -1-2-3 4:5:60".toList (some .dateTime) =
      .ok (.dateTime ⟨⟨-1, 2, 3, by decide, by decide, by decide⟩,
        ⟨4, 5, 60, by decide, by decide, by decide⟩⟩) := rfl
  have hexact : DataType.dateTime ∈ DataType.exact := by decide
  exact ⟨_, hread, by decide, (castScalar_unquoted hexact _).2.2 _ hread⟩

end WhereClause
