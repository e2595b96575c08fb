import HourlyPrices.Dataset.Records
import HourlyPrices.Proofs.Decimal.Text
import Mathlib.Data.List.DropRight
import Mathlib.Data.List.Induction

/-!
# Tariff records in JSON

A tariff record is read from an object whose keys may come in any order, more than once and among
others. Of each column the last member counts, and a member that is no column is skipped. That a
price column is known by its number has a flaw: a plus sign or zeros in front of the number are
taken for a part of it, so that such a key, which is no column, sets the price of one
(`TariffRecord.ofJson?_misspelled`). Objects without such keys are read by the names of the columns
alone (`TariffRecord.ofJson?_object`).
-/

namespace HourlyPrices

open TariffQuery (priceColumn)

/-! ## Members -/

namespace Json

theorem member?_concat (ms : List (String × Json)) (m : String × Json) (key : String) :
    (Json.object (ms ++ [m])).member? key =
      if m.1 = key then some m.2 else (Json.object ms).member? key := by
  rw [member?, List.reverse_append, List.reverse_singleton, List.singleton_append]
  by_cases h : m.1 = key
  · rw [List.find?_cons_of_pos (by simpa using h), if_pos h]
    rfl
  · rw [List.find?_cons_of_neg (by simpa using h), if_neg h]
    rfl

/-- The value under a key is that of the last member with the key. -/
theorem member?_eq_getLast? (ms : List (String × Json)) (key : String) :
    (Json.object ms).member? key = ((ms.filter (·.1 == key)).getLast?).map Prod.snd := by
  rw [member?, List.getLast?_eq_head?_reverse, ← List.filter_reverse, List.head?_filter]

end Json

namespace TariffRecord

variable {key : String} {v : Json} {i j : Nat} {members : List (String × Json)} {d : Draft}
  {r : TariffRecord}

/-! ## The names of price columns -/

/-- A text that is taken for the name of the price column with a number: a plus sign and zeros may
stand before the number. -/
def TakenFor (key : String) (n : Nat) : Prop :=
  ∃ sign zeros, (sign = [] ∨ sign = ['+']) ∧
    key.toList = "Price".toList ++ (sign ++ (List.replicate zeros '0' ++ Nat.toDigits 10 n))

/-- A text that is taken for the name of a price column, without being one. -/
def Misspelled (key : String) : Prop :=
  ∃ i < priceColumns, TakenFor key (i + 1) ∧ key ≠ priceColumn (i + 1)

theorem afterPrice?_eq_some_iff {cs ds : List Char} :
    afterPrice? cs = some ds ↔ cs = "Price".toList ++ ds := by
  unfold afterPrice?
  split
  · simp
  · rename_i hother
    refine iff_of_false nofun fun h => hother ds ?_
    simpa using h

theorem columnIndex?_eq_some_iff :
    columnIndex? key = some i ↔ i < priceColumns ∧ TakenFor key (i + 1) := by
  simp only [columnIndex?, Option.bind_eq_bind, Option.bind_eq_some_iff, afterPrice?_eq_some_iff,
    Decimal.exponentValue?_eq_some_iff]
  constructor
  · rintro ⟨cs, hkey, n, ⟨sign, ds, hsign, rfl, hne, hdigit, rfl⟩, hindex⟩
    split at hindex
    · rename_i hrange
      obtain rfl := Option.some.inj hindex
      obtain ⟨zeros, hds⟩ := Decimal.exists_leadingZeros hdigit hrange.1
      refine ⟨by omega, sign, zeros, hsign, ?_⟩
      rw [Nat.sub_add_cancel hrange.1, ← hds, hkey]
    · cases hindex
  · rintro ⟨hi, sign, zeros, hsign, hkey⟩
    refine ⟨_, hkey, i + 1, ⟨sign, _, hsign, rfl, by simp, ?_, ?_⟩, ?_⟩
    · refine List.forall_mem_append.2 ⟨fun c hc => ?_, fun c hc => ?_⟩
      · rw [(List.mem_replicate.1 hc).2]
        rfl
      · exact Nat.isDigit_of_mem_toDigits (by decide) (by decide) hc
    · rw [Nat.ofDigitChars_append, Nat.ofDigitChars_replicate_zero, Nat.mul_zero,
        Nat.ofDigitChars_toDigits (by decide) (by decide)]
    · simp only [Option.ite_none_right_eq_some, Option.some.injEq]
      omega

theorem columnIndex?_priceColumn (hi : i < priceColumns) :
    columnIndex? (priceColumn (i + 1)) = some i :=
  columnIndex?_eq_some_iff.2 ⟨hi, [], 0, .inl rfl, by simp [priceColumn]⟩

theorem misspelled_iff :
    Misspelled key ↔ ((columnIndex? key).any fun i => key != priceColumn (i + 1)) = true := by
  simp only [Misspelled, Option.any_eq_true, columnIndex?_eq_some_iff, bne_iff_ne, and_assoc]

instance : DecidablePred Misspelled := fun _ => decidable_of_iff _ misspelled_iff.symm

/-- A text that is not misspelled is taken for the column that it names. -/
theorem columnIndex?_of_not_misspelled (h : ¬ Misspelled key) :
    columnIndex? key = some i ↔ i < priceColumns ∧ key = priceColumn (i + 1) := by
  constructor
  · intro hindex
    obtain ⟨hi, htaken⟩ := columnIndex?_eq_some_iff.1 hindex
    exact ⟨hi, Classical.not_not.1 fun hne => h ⟨i, hi, htaken, hne⟩⟩
  · rintro ⟨hi, rfl⟩
    exact columnIndex?_priceColumn hi

theorem priceColumn_injective (hi : i < priceColumns) (hj : j < priceColumns)
    (h : priceColumn (i + 1) = priceColumn (j + 1)) : i = j := by
  have hindex := columnIndex?_priceColumn hi
  rw [h, columnIndex?_priceColumn hj] at hindex
  exact (Option.some.inj hindex).symm

theorem columnIndex?_eq_none (h : ¬ Misspelled key)
    (hkey : ∀ i < priceColumns, key ≠ priceColumn (i + 1)) : columnIndex? key = none := by
  refine Option.eq_none_iff_forall_ne_some.2 fun i hindex => ?_
  obtain ⟨hi, rfl⟩ := (columnIndex?_of_not_misspelled h).1 hindex
  exact hkey i hi rfl

theorem ne_priceColumn (h : columnIndex? key = none) :
    ∀ i < priceColumns, key ≠ priceColumn (i + 1) := by
  rintro i hi rfl
  rw [columnIndex?_priceColumn hi] at h
  cases h

theorem ne_of_columnIndex? (h : columnIndex? key = some i) :
    key ≠ "ValidFrom" ∧ key ≠ "ValidTo" ∧ key ≠ "ChargeTypeCode" := by
  refine ⟨?_, ?_, ?_⟩ <;>
  · rintro rfl
    cases h

/-! ## Missing values -/

theorem getElem?_trimMissing (ps : List (Option Decimal)) (i : Nat) :
    (trimMissing ps)[i]?.join = ps[i]?.join := by
  -- The values go from the end, so the induction is on the list without its last value.
  change (ps.rdropWhile Option.isNone)[i]?.join = _
  induction ps using List.reverseRecOn with
  | nil => rfl
  | append_singleton ps p ih =>
    cases p with
    | some p => rw [List.rdropWhile_concat_neg _ _ _ (by simp)]
    | none =>
      rw [List.rdropWhile_concat_pos _ _ _ rfl, ih, List.getElem?_append]
      split
      · rfl
      · rename_i hlength
        rw [List.getElem?_eq_none (Nat.le_of_not_lt hlength), List.getElem?_singleton]
        split <;> rfl

theorem length_trimMissing_le (ps : List (Option Decimal)) :
    (trimMissing ps).length ≤ ps.length :=
  (List.rdropWhile_prefix Option.isNone ps).length_le

/-- The last value of a record is there, so a list with the same values is as long. -/
theorem length_le_of_values {ps qs : List (Option Decimal)} (hps : ps.getLast? ≠ some none)
    (h : ∀ i < ps.length, ps[i]?.join = qs[i]?.join) : ps.length ≤ qs.length := by
  rcases Nat.eq_zero_or_pos ps.length with hzero | hpos
  · omega
  · rw [List.getLast?_eq_getElem?, List.getElem?_eq_getElem (by omega)] at hps
    have hlast := h (ps.length - 1) (by omega)
    rw [List.getElem?_eq_getElem (by omega)] at hlast
    cases hp : ps[ps.length - 1] with
    | none => exact absurd (congrArg some hp) hps
    | some p =>
      rw [hp] at hlast
      have hlt := (List.getElem?_eq_some_iff.1 (Option.join_eq_some_iff.1 hlast.symm)).1
      omega

theorem eq_of_values {ps qs : List (Option Decimal)} (hps : ps.getLast? ≠ some none)
    (hqs : qs.getLast? ≠ some none) (h : ∀ i : Nat, ps[i]?.join = qs[i]?.join) : ps = qs := by
  have hlength : ps.length = qs.length := Nat.le_antisymm
    (length_le_of_values hps fun i _ => h i) (length_le_of_values hqs fun i _ => (h i).symm)
  refine List.ext_getElem hlength fun i hi hi' => ?_
  simpa [hi, hi'] using h i

/-! ## Members in their order -/

/-- The value under a key can be read, if the key is the name of a column. -/
structure Fits (key : String) (v : Json) : Prop where
  validFrom : key = "ValidFrom" → (localTime? v).isSome
  validTo : key = "ValidTo" → (Json.nullable? localTime? v).isSome
  code : key = "ChargeTypeCode" → (Json.nullable? Json.text? v).isSome
  price : ∀ i < priceColumns, key = priceColumn (i + 1) → (Json.nullable? Decimal.ofJson? v).isSome

theorem fits_validFrom : Fits "ValidFrom" v ↔ (localTime? v).isSome :=
  ⟨fun h => h.validFrom rfl, fun h => ⟨fun _ => h, nofun, nofun,
    fun i hi hname => absurd hname (ne_priceColumn rfl i hi)⟩⟩

theorem fits_validTo : Fits "ValidTo" v ↔ (Json.nullable? localTime? v).isSome :=
  ⟨fun h => h.validTo rfl, fun h => ⟨nofun, fun _ => h, nofun,
    fun i hi hname => absurd hname (ne_priceColumn rfl i hi)⟩⟩

theorem fits_code : Fits "ChargeTypeCode" v ↔ (Json.nullable? Json.text? v).isSome :=
  ⟨fun h => h.code rfl, fun h => ⟨nofun, nofun, fun _ => h,
    fun i hi hname => absurd hname (ne_priceColumn rfl i hi)⟩⟩

theorem fits_priceColumn (hi : i < priceColumns) :
    Fits (priceColumn (i + 1)) v ↔ (Json.nullable? Decimal.ofJson? v).isSome := by
  obtain ⟨hfrom, hto, hcode⟩ := ne_of_columnIndex? (columnIndex?_priceColumn hi)
  exact ⟨fun h => h.price i hi rfl, fun h => ⟨fun hname => absurd hname hfrom,
    fun hname => absurd hname hto, fun hname => absurd hname hcode, fun _ _ _ => h⟩⟩

theorem mem_columns_iff : key ∈ TariffQuery.columns ↔
    key = "ValidFrom" ∨ key = "ValidTo" ∨ key = "ChargeTypeCode" ∨
      ∃ i < priceColumns, key = priceColumn (i + 1) := by
  simp only [TariffQuery.columns, List.cons_append, List.nil_append, List.mem_cons, List.mem_map,
    List.mem_range, eq_comm]

/-- A key that names no column may have any value. -/
theorem fits_of_not_mem_columns (h : key ∉ TariffQuery.columns) : Fits key v := by
  rw [mem_columns_iff] at h
  exact ⟨fun hname => absurd (.inl hname) h, fun hname => absurd (.inr (.inl hname)) h,
    fun hname => absurd (.inr (.inr (.inl hname))) h,
    fun i hi hname => absurd (.inr (.inr (.inr ⟨i, hi, hname⟩))) h⟩

/-- What an object has under the names of the columns. -/
def Draft.named (v : Json) : Draft where
  validFrom := (v.member? "ValidFrom").bind localTime?
  validTo := (v.member? "ValidTo").bind localTime?
  code := ((v.member? "ChargeTypeCode").bind Json.text?).getD ""
  prices := (List.range priceColumns).map fun i =>
    (v.member? (priceColumn (i + 1))).bind Decimal.ofJson?

/-- A value that may be `null` is read as if `null` were no value. -/
theorem bind_nullable?_eq_some_iff {α β : Type} {read : Json → Option α}
    (hnull : read .null = none) {f : Option α → β} {b : β} :
    ((Json.nullable? read v).bind fun x => some (f x)) = some b ↔
      (Json.nullable? read v).isSome ∧ b = f (read v) := by
  have hread : ∀ x, Json.nullable? read v = some x → x = read v := by
    intro x hx
    cases v
    case null => exact (Option.some.inj hx).symm.trans hnull.symm
    all_goals
      obtain ⟨y, hy, rfl⟩ := Option.map_eq_some_iff.1 hx
      exact hy.symm
  cases hx : Json.nullable? read v with
  | none => simp
  | some x => simp [hread x hx, eq_comm]

theorem Draft.named_concat (hkey : ∀ i < priceColumns, key ≠ priceColumn (i + 1))
    (ms : List (String × Json)) (v : Json) :
    named (.object (ms ++ [(key, v)])) =
      { named (.object ms) with
        validFrom := if key = "ValidFrom" then localTime? v else (named (.object ms)).validFrom
        validTo := if key = "ValidTo" then localTime? v else (named (.object ms)).validTo
        code :=
          if key = "ChargeTypeCode" then v.text?.getD "" else (named (.object ms)).code } := by
  simp only [named, Json.member?_concat]
  congr 1
  · split <;> rfl
  · split <;> rfl
  · split <;> rfl
  · refine List.map_congr_left fun i hi => ?_
    rw [if_neg (hkey i (List.mem_range.1 hi))]

theorem Draft.named_concat_priceColumn (hi : i < priceColumns) (ms : List (String × Json))
    (v : Json) :
    named (.object (ms ++ [(priceColumn (i + 1), v)])) =
      { named (.object ms) with
        prices := (named (.object ms)).prices.set i (Decimal.ofJson? v) } := by
  obtain ⟨hfrom, hto, hcode⟩ := ne_of_columnIndex? (columnIndex?_priceColumn hi)
  simp only [named, Json.member?_concat, if_neg hfrom, if_neg hto, if_neg hcode]
  congr 1
  refine List.ext_getElem (by simp) fun j hj hj' => ?_
  rw [List.length_map, List.length_range] at hj
  rw [List.getElem_map, List.getElem_range, List.getElem_set, List.getElem_map, List.getElem_range]
  by_cases hij : i = j
  · rw [if_pos (by rw [hij]), if_pos hij]
    rfl
  · rw [if_neg fun h => hij (priceColumn_injective hi hj h), if_neg hij]

theorem Draft.take_of_columnIndex? (d : Draft) (h : columnIndex? key = some i) (v : Json) :
    d.take key v = (Json.nullable? Decimal.ofJson? v).bind fun p =>
      some { d with prices := d.prices.set i p } := by
  obtain ⟨hfrom, hto, hcode⟩ := ne_of_columnIndex? h
  rw [take, if_neg hfrom, if_neg hto, if_neg hcode, h]
  rfl

theorem Draft.take_of_not_mem_columns (d : Draft) (hcolumn : key ∉ TariffQuery.columns)
    (h : ¬ Misspelled key) (v : Json) : d.take key v = some d := by
  simp only [mem_columns_iff, not_or] at hcolumn
  obtain ⟨hfrom, hto, hcode, hprice⟩ := hcolumn
  rw [take, if_neg hfrom, if_neg hto, if_neg hcode,
    columnIndex?_eq_none h fun i hi hname => hprice ⟨i, hi, hname⟩]

/-- One more member gives its column its value. -/
theorem Draft.take_named_eq_some_iff (h : ¬ Misspelled key) (ms : List (String × Json)) :
    (named (.object ms)).take key v = some d ↔
      Fits key v ∧ d = named (.object (ms ++ [(key, v)])) := by
  by_cases hcolumn : key ∈ TariffQuery.columns
  · rcases mem_columns_iff.1 hcolumn with rfl | rfl | rfl | ⟨i, hi, rfl⟩
    · rw [fits_validFrom, named_concat (ne_priceColumn rfl), take, if_pos rfl]
      cases localTime? v <;> simp [eq_comm]
    · rw [fits_validTo, named_concat (ne_priceColumn rfl), take, if_neg (by decide), if_pos rfl]
      exact bind_nullable?_eq_some_iff rfl
    · rw [fits_code, named_concat (ne_priceColumn rfl), take, if_neg (by decide),
        if_neg (by decide), if_pos rfl]
      exact bind_nullable?_eq_some_iff rfl
    · rw [fits_priceColumn hi, named_concat_priceColumn hi,
        take_of_columnIndex? _ (columnIndex?_priceColumn hi)]
      exact bind_nullable?_eq_some_iff rfl
  · have hfits : Fits key v := fits_of_not_mem_columns hcolumn
    rw [take_of_not_mem_columns _ hcolumn h]
    simp only [mem_columns_iff, not_or] at hcolumn
    obtain ⟨hfrom, hto, hcode, hprice⟩ := hcolumn
    rw [named_concat fun i hi hname => hprice ⟨i, hi, hname⟩]
    simp [hfits, hfrom, hto, hcode, eq_comm]

/-- All members give their columns their values, the last one of each column for good. -/
theorem Draft.foldlM_take_eq_some_iff (h : ∀ m ∈ members, ¬ Misspelled m.1)
    (before : List (String × Json)) :
    members.foldlM (fun d m => d.take m.1 m.2) (named (.object before)) = some d ↔
      (∀ m ∈ members, Fits m.1 m.2) ∧ d = named (.object (before ++ members)) := by
  -- What has been read before stands for the draft, so that the members that remain extend it.
  induction members generalizing before with
  | nil => simp [eq_comm]
  | cons m members ih =>
    obtain ⟨hm, hrest⟩ := List.forall_mem_cons.1 h
    have hsplit : before ++ m :: members = (before ++ [(m.1, m.2)]) ++ members := by simp
    rw [List.foldlM_cons, Option.bind_eq_bind, Option.bind_eq_some_iff, hsplit,
      List.forall_mem_cons]
    constructor
    · rintro ⟨e, htake, hfold⟩
      obtain ⟨hfits, rfl⟩ := (take_named_eq_some_iff hm before).1 htake
      obtain ⟨hall, hd⟩ := (ih hrest _).1 hfold
      exact ⟨⟨hfits, hall⟩, hd⟩
    · rintro ⟨⟨hfits, hall⟩, hd⟩
      exact ⟨_, (take_named_eq_some_iff hm before).2 ⟨hfits, rfl⟩, (ih hrest _).2 ⟨hall, hd⟩⟩

/-! ## Records -/

/-- The values of a record are those that an object has under the names of the columns, where a
value that is not there or `null` is missing. -/
structure GivenBy (r : TariffRecord) (v : Json) : Prop where
  validFrom : (v.member? "ValidFrom").bind localTime? = some r.validFrom
  validTo : (v.member? "ValidTo").bind localTime? = r.validTo
  code : ((v.member? "ChargeTypeCode").bind Json.text?).getD "" = r.code
  columns : r.prices.length ≤ priceColumns
  prices : ∀ i < priceColumns,
    (v.member? (priceColumn (i + 1))).bind Decimal.ofJson? = r.prices[i]?.join

theorem getElem?_named_prices (v : Json) (i : Nat) : (Draft.named v).prices[i]?.join =
    if i < priceColumns then (v.member? (priceColumn (i + 1))).bind Decimal.ofJson? else none := by
  rw [Draft.named, List.getElem?_map]
  by_cases hi : i < priceColumns <;> simp [hi]

theorem givenBy_iff : r.GivenBy v ↔
    (Draft.named v).validFrom = some r.validFrom ∧
      r = ofPrices r.validFrom (Draft.named v).validTo (Draft.named v).code
        (Draft.named v).prices := by
  obtain ⟨validFrom, validTo, code, prices, htrimmed⟩ := r
  simp only [ofPrices, TariffRecord.mk.injEq, true_and]
  constructor
  · rintro ⟨hfrom, hto, hcode, hcolumns, hprices⟩
    refine ⟨hfrom, hto.symm, hcode.symm, eq_of_values htrimmed (getLast?_trimMissing _) fun i => ?_⟩
    rw [getElem?_trimMissing, getElem?_named_prices]
    split
    · rename_i hi
      exact (hprices i hi).symm
    · rename_i hi
      rw [List.getElem?_eq_none (Nat.le_trans hcolumns (Nat.le_of_not_lt hi))]
      rfl
  · rintro ⟨hfrom, rfl, rfl, rfl⟩
    refine ⟨hfrom, rfl, rfl, ?_, fun i hi => ?_⟩
    · have hlength : (Draft.named v).prices.length = priceColumns := by simp [Draft.named]
      exact hlength ▸ length_trimMissing_le _
    · rw [getElem?_trimMissing, getElem?_named_prices, if_pos hi]

theorem ofJson?_eq_some_iff (h : ∀ m ∈ members, ¬ Misspelled m.1) :
    ofJson? (.object members) = some r ↔
      (∀ m ∈ members, Fits m.1 m.2) ∧ r.GivenBy (.object members) := by
  have hempty : ({} : Draft) = Draft.named (.object []) := rfl
  simp only [ofJson?, hempty, Option.bind_eq_bind, Option.pure_def, Option.bind_eq_some_iff,
    Draft.foldlM_take_eq_some_iff h, List.nil_append, givenBy_iff]
  constructor
  · rintro ⟨_, ⟨hfits, rfl⟩, l, hfrom, hr⟩
    obtain rfl := Option.some.inj hr
    exact ⟨hfits, hfrom, rfl⟩
  · rintro ⟨hfits, hfrom, hr⟩
    exact ⟨_, ⟨hfits, rfl⟩, _, hfrom, congrArg some hr.symm⟩

theorem Draft.named_congr {w : Json}
    (h : ∀ name ∈ TariffQuery.columns, v.member? name = w.member? name) : named v = named w := by
  have hprice : ∀ i ∈ List.range priceColumns,
      v.member? (priceColumn (i + 1)) = w.member? (priceColumn (i + 1)) := fun i hi =>
    h _ (mem_columns_iff.2 (.inr (.inr (.inr ⟨i, List.mem_range.1 hi, rfl⟩))))
  simp only [named, h "ValidFrom" (by decide), h "ValidTo" (by decide),
    h "ChargeTypeCode" (by decide)]
  congr 1
  exact List.map_congr_left fun i hi => by rw [hprice i hi]

theorem forall_fits_congr {members' : List (String × Json)}
    (h : ∀ m : String × Json, m.1 ∈ TariffQuery.columns → (m ∈ members' ↔ m ∈ members)) :
    (∀ m ∈ members', Fits m.1 m.2) ↔ ∀ m ∈ members, Fits m.1 m.2 := by
  refine forall_congr' fun m => ?_
  by_cases hm : m.1 ∈ TariffQuery.columns
  · rw [h m hm]
  · exact iff_of_true (fun _ => fits_of_not_mem_columns hm) fun _ => fits_of_not_mem_columns hm

/-- The members of the columns alone decide what is read. -/
theorem ofJson?_congr {members' : List (String × Json)} (h : ∀ m ∈ members, ¬ Misspelled m.1)
    (h' : ∀ m ∈ members', ¬ Misspelled m.1)
    (hcolumns : ∀ name ∈ TariffQuery.columns,
      members'.filter (·.1 == name) = members.filter (·.1 == name)) :
    ofJson? (.object members') = ofJson? (.object members) := by
  have hnamed : Draft.named (.object members') = Draft.named (.object members) := by
    refine Draft.named_congr fun name hname => ?_
    rw [Json.member?_eq_getLast?, Json.member?_eq_getLast?, hcolumns name hname]
  have hfits : (∀ m ∈ members', Fits m.1 m.2) ↔ ∀ m ∈ members, Fits m.1 m.2 := by
    refine forall_fits_congr fun m hm => ?_
    have hmem := congrArg (m ∈ ·) (hcolumns m.1 hm)
    simpa using hmem
  refine Option.ext fun r => ?_
  rw [ofJson?_eq_some_iff h', ofJson?_eq_some_iff h, givenBy_iff, givenBy_iff, hnamed, hfits]

/-- A text that is taken for the name of a price column can stand for it. -/
theorem ofJson?_takenFor (hi : i < priceColumns) (h : TakenFor key (i + 1))
    (before : List (String × Json)) (v : Json) (after : List (String × Json)) :
    ofJson? (.object (before ++ (key, v) :: after)) =
      ofJson? (.object (before ++ (priceColumn (i + 1), v) :: after)) := by
  simp only [ofJson?, List.foldlM_append, List.foldlM_cons,
    Draft.take_of_columnIndex? _ (columnIndex?_eq_some_iff.2 ⟨hi, h⟩),
    Draft.take_of_columnIndex? _ (columnIndex?_priceColumn hi)]

/-- A key that names no column is skipped, whatever its value, unless it is misspelled. -/
theorem ofJson?_skips_iff (hcolumn : key ∉ TariffQuery.columns) :
    (∀ before v after, ofJson? (.object (before ++ (key, v) :: after)) =
      ofJson? (.object (before ++ after))) ↔ ¬ Misspelled key := by
  constructor
  · rintro hskips ⟨i, hi, htaken, -⟩
    -- No price is read from `true`, so the object is refused with the key, but not without it.
    have hnone : ({} : Draft).take key (.bool true) = none := by
      rw [Draft.take_of_columnIndex? _ (columnIndex?_eq_some_iff.2 ⟨hi, htaken⟩)]
      rfl
    have hread := hskips [] (.bool true) [("ValidFrom", .string "2023-01-01T00:00:00")]
    have hsome :
        (ofJson? (.object [("ValidFrom", .string "2023-01-01T00:00:00")])).isSome := by
      decide +kernel
    rw [List.nil_append, List.nil_append, ofJson?, List.foldlM_cons, hnone] at hread
    rw [← hread] at hsome
    cases hsome
  · intro h before v after
    simp only [ofJson?, List.foldlM_append, List.foldlM_cons,
      Draft.take_of_not_mem_columns _ hcolumn h, Option.bind_eq_bind, Option.bind_some]

/-- An object in which no key is misspelled is read as a record exactly if the values under the
names of the columns can be read, each of them, and the record has the last value of each column.
So any object with the same members for each column, in whatever order the columns come and with
whatever other members, is read as the same record. A key that names no column is skipped, whatever
its value, exactly if it is not misspelled; otherwise it stands for the column it is taken for. -/
theorem ofJson?_object (members : List (String × Json)) (h : ∀ m ∈ members, ¬ Misspelled m.1) :
    (∀ r, ofJson? (.object members) = some r ↔
      (∀ m ∈ members, Fits m.1 m.2) ∧ r.GivenBy (.object members)) ∧
    (∀ members', (∀ m ∈ members', ¬ Misspelled m.1) →
      (∀ name ∈ TariffQuery.columns,
        members'.filter (·.1 == name) = members.filter (·.1 == name)) →
      ofJson? (.object members') = ofJson? (.object members)) ∧
    (∀ key ∉ TariffQuery.columns,
      (∀ before v after, ofJson? (.object (before ++ (key, v) :: after)) =
        ofJson? (.object (before ++ after))) ↔ ¬ Misspelled key) ∧
    ∀ key, ∀ i < priceColumns, TakenFor key (i + 1) →
      ∀ before v after, ofJson? (.object (before ++ (key, v) :: after)) =
        ofJson? (.object (before ++ (priceColumn (i + 1), v) :: after)) :=
  ⟨fun _ => ofJson?_eq_some_iff h, fun _ h' hcolumns => ofJson?_congr h h' hcolumns,
    fun _ hcolumn => ofJson?_skips_iff hcolumn, fun _ _ hi htaken => ofJson?_takenFor hi htaken⟩

/-- A record whose first price comes twice, with its columns out of order and a note among them. -/
theorem ofJson?_object_repeated : ∃ members, (∀ m ∈ members, ¬ Misspelled m.1) ∧
    members.map Prod.fst = ["Price2", "Price1", "Note", "Price1", "ValidFrom", "Price24"] ∧
    ∃ r, ofJson? (.object members) = some r ∧ r.GivenBy (.object members) ∧
      r.prices = [some { num := 7, scale := 0 }, some { num := 12, scale := 1 }] := by
  let members : List (String × Json) := [("Price2", .number "1.2"), ("Price1", .number "5"),
    ("Note", .bool true), ("Price1", .string "7"), ("ValidFrom", .string "2023-01-01T00:00:00"),
    ("Price24", .null)]
  have hspelled : ∀ m ∈ members, ¬ Misspelled m.1 := by decide +kernel
  have hread : (ofJson? (.object members)).map (·.prices) =
      some [some { num := 7, scale := 0 }, some { num := 12, scale := 1 }] := by decide +kernel
  obtain ⟨r, hr, hprices⟩ := Option.map_eq_some_iff.1 hread
  exact ⟨members, hspelled, rfl, r, hr, (((ofJson?_object members hspelled).1 r).1 hr).2, hprices⟩

/-- A plus sign in front of the number of a price column: the key names no column, and yet its value
replaces the price of the column. -/
theorem ofJson?_misspelled : "Price+1" ∉ TariffQuery.columns ∧
    ∃ r, ofJson? (.object [("ValidFrom", .string "2023-01-01T00:00:00"), ("Price1", .number "1"),
        ("Price+1", .number "2")]) = some r ∧
      r.prices = [some { num := 2, scale := 0 }] ∧
      ¬ r.GivenBy (.object [("ValidFrom", .string "2023-01-01T00:00:00"), ("Price1", .number "1"),
        ("Price+1", .number "2")]) := by
  have hread : (ofJson? (.object [("ValidFrom", .string "2023-01-01T00:00:00"),
      ("Price1", .number "1"), ("Price+1", .number "2")])).map (·.prices) =
        some [some { num := 2, scale := 0 }] := by decide +kernel
  obtain ⟨r, hr, hprices⟩ := Option.map_eq_some_iff.1 hread
  refine ⟨by decide +kernel, r, hr, hprices, fun hgiven => ?_⟩
  have hfirst := hgiven.prices 0 (by decide)
  rw [hprices] at hfirst
  revert hfirst
  decide +kernel

end TariffRecord

end HourlyPrices
