import HourlyPrices.Dataset.Query
import HourlyPrices.Proofs.Json.RoundTrip

/-!
# What requests select

The selection of a request is a parameter of it, a JSON text. Whatever characters a price area, a
number, a code or a note has, the text is read back as an object with exactly the members of the
request (`parameters_select`). Requests of one kind with the same parameters therefore ask for the
same records; only starts that print alike cannot be told apart.
-/

namespace HourlyPrices

/-! ## Starts -/

namespace Start

variable {s s' : Start}

theorem isEmpty_iff : s.isEmpty ↔ s.toText = "" := by
  rw [isEmpty, beq_iff_eq, toText, String.ofList_eq_empty_iff]
  cases s with
  | empty => exact iff_of_true rfl rfl
  | date d => exact iff_of_false nofun (by simp [toChars, Date.toChars])
  | anchored a o =>
    have hname : a.name.toList ≠ [] := by cases a <;> decide
    exact iff_of_false nofun (by simp [toChars, hname])

/-- The parameter of a start shows its text and nothing else of it. -/
theorem parameters_eq_iff : s.parameters = s'.parameters ↔ s.toText = s'.toText := by
  unfold parameters
  by_cases hs : s.isEmpty <;> by_cases hs' : s'.isEmpty
  · simp [hs, hs', isEmpty_iff.1 hs, isEmpty_iff.1 hs']
  · rw [if_pos hs, if_neg hs', isEmpty_iff.1 hs]
    exact iff_of_false nofun fun h => hs' (isEmpty_iff.2 h.symm)
  · rw [if_neg hs, if_pos hs', isEmpty_iff.1 hs']
    exact iff_of_false nofun fun h => hs (isEmpty_iff.2 h)
  · simp [hs, hs']

theorem not_mem_parameters {name : String} (h : name ≠ "start") (s : Start) (value : String) :
    (name, value) ∉ s.parameters := by
  unfold parameters
  split
  · simp
  · simp [h]

end Start

/-! ## Spot prices -/

namespace SpotQuery

theorem ofText?_selection (q : SpotQuery) :
    Json.ofText? q.selection.toText = some (.object [("PriceArea", .string q.area)]) :=
  Json.ofText?_toText (.object (by simpa using .string q.area))

theorem mem_parameters_filter_iff (q : SpotQuery) (value : String) :
    ("filter", value) ∈ q.parameters ↔ value = q.selection.toText := by
  have hstart := Start.not_mem_parameters (show "filter" ≠ "start" by decide)
  simp [parameters, hstart]

theorem parameters_eq_iff (q q' : SpotQuery) : q.parameters = q'.parameters ↔
    q.area = q'.area ∧ q.currency = q'.currency ∧ q.start.toText = q'.start.toText := by
  have hcode : ∀ c d : Currency, c.code = d.code ↔ c = d := by
    intro c d
    cases c <;> cases d <;> decide
  rw [← Start.parameters_eq_iff]
  constructor
  · intro h
    obtain ⟨hstart, hrest⟩ := List.append_inj' h rfl
    simp only [List.cons.injEq, Prod.mk.injEq, true_and, and_true] at hrest
    obtain ⟨hselection, hcolumns⟩ := hrest
    have hread := q.ofText?_selection
    rw [hselection, q'.ofText?_selection] at hread
    simp only [Option.some.injEq, Json.object.injEq, List.cons.injEq, Prod.mk.injEq, true_and,
      Json.string.injEq, and_true] at hread
    exact ⟨hread.symm, (hcode _ _).1 (String.append_right_inj _ |>.1 hcolumns), hstart⟩
  · rintro ⟨harea, hcurrency, hstart⟩
    rw [parameters, parameters, selection, selection, harea, hcurrency, hstart]

end SpotQuery

/-! ## Tariffs -/

namespace TariffQuery

variable {q q' : TariffQuery} {key : String} {v : Json}

/-- The members of the selection of a request: the number of the charge owner and the charge type,
and the codes and the notes unless there are none. -/
inductive Selects (q : TariffQuery) : String → Json → Prop
  | gln : Selects q "GLN_Number" (.array [.string q.gln.text])
  | chargeType : Selects q "ChargeType" (.array [.string "D03"])
  | codes (h : q.filter.codes.items ≠ []) :
    Selects q "ChargeTypeCode" (.array (q.filter.codes.items.map .string))
  | notes (h : q.filter.notes.items ≠ []) :
    Selects q "Note" (.array (q.filter.notes.items.map .string))

theorem selects_iff : q.Selects key v ↔
    (key = "ChargeType" ∧ v = .array [.string "D03"]) ∨
    (key = "ChargeTypeCode" ∧ q.filter.codes.items ≠ [] ∧
      v = .array (q.filter.codes.items.map .string)) ∨
    (key = "GLN_Number" ∧ v = .array [.string q.gln.text]) ∨
    (key = "Note" ∧ q.filter.notes.items ≠ [] ∧
      v = .array (q.filter.notes.items.map .string)) := by
  constructor
  · rintro (_ | _ | h | h)
    · exact .inr (.inr (.inl ⟨rfl, rfl⟩))
    · exact .inl ⟨rfl, rfl⟩
    · exact .inr (.inl ⟨rfl, h, rfl⟩)
    · exact .inr (.inr (.inr ⟨rfl, h, rfl⟩))
  · rintro (⟨rfl, rfl⟩ | ⟨rfl, h, rfl⟩ | ⟨rfl, rfl⟩ | ⟨rfl, h, rfl⟩)
    · exact .chargeType
    · exact .codes h
    · exact .gln
    · exact .notes h

theorem mem_setMember_iff {name : String} {s : TextSet} : (key, v) ∈ setMember name s ↔
    key = name ∧ s.items ≠ [] ∧ v = .array (s.items.map .string) := by
  unfold setMember TextSet.isEmpty
  by_cases hs : s.items = [] <;> simp [hs]

theorem selection_eq (q : TariffQuery) : ∃ members, q.selection = .object members ∧
    (members.map Prod.fst).Nodup ∧ ∀ key v, (key, v) ∈ members ↔ q.Selects key v := by
  refine ⟨_, rfl, ?_, fun key v => ?_⟩
  · unfold setMember
    split <;> split <;> simp
  · rw [selects_iff]
    simp only [List.cons_append, List.mem_cons, List.mem_append, mem_setMember_iff, Prod.mk.injEq,
      chargeType]

theorem ofText?_selection (q : TariffQuery) :
    Json.ofText? q.selection.toText = some q.selection := by
  obtain ⟨members, hmembers, -, hselects⟩ := q.selection_eq
  have hstrings : ∀ texts : List String, (Json.array (texts.map .string)).Proper := by
    refine fun texts => .array fun v hv => ?_
    obtain ⟨t, -, rfl⟩ := List.mem_map.1 hv
    exact .string t
  rw [hmembers]
  refine Json.ofText?_toText (.object fun ⟨key, v⟩ hm => ?_)
  cases (hselects key v).1 hm with
  | gln => exact hstrings [_]
  | chargeType => exact hstrings ["D03"]
  | codes | notes => exact hstrings _

theorem mem_parameters_filter_iff (q : TariffQuery) (value : String) :
    ("filter", value) ∈ q.parameters ↔ value = q.selection.toText := by
  have hstart := Start.not_mem_parameters (show "filter" ≠ "start" by decide)
  simp [parameters, hstart]

/-- A set that is listed unless it is empty can be read off the list. -/
theorem textSet_eq {s s' : TextSet}
    (h : ∀ v, s.items ≠ [] ∧ v = Json.array (s.items.map .string) ↔
      s'.items ≠ [] ∧ v = Json.array (s'.items.map .string)) : s = s' := by
  have hitems : s.items = s'.items := by
    by_cases hs : s.items = []
    · have hs' : ¬ s'.items ≠ [] := fun hs' => ((h _).2 ⟨hs', rfl⟩).1 hs
      rw [hs, Classical.not_not.1 hs']
    · have hlists := Json.array.inj ((h _).1 ⟨hs, rfl⟩).2
      exact (List.map_inj_right fun _ _ => Json.string.inj).1 hlists
  obtain ⟨items, _⟩ := s
  obtain ⟨items', _⟩ := s'
  cases hitems
  rfl

/-- What a request selects determines its number, its codes and its notes. -/
theorem eq_of_selects (h : ∀ key v, q.Selects key v ↔ q'.Selects key v) :
    q.gln = q'.gln ∧ q.filter.codes = q'.filter.codes ∧ q.filter.notes = q'.filter.notes := by
  simp only [selects_iff] at h
  have hgln : q.gln.text = q'.gln.text := by
    simpa using h "GLN_Number" (.array [.string q.gln.text])
  exact ⟨congrArg Gln.mk hgln, textSet_eq fun v => by simpa using h "ChargeTypeCode" v,
    textSet_eq fun v => by simpa using h "Note" v⟩

theorem parameters_eq_iff (q q' : TariffQuery) : q.parameters = q'.parameters ↔
    q.gln = q'.gln ∧ q.filter.codes = q'.filter.codes ∧ q.filter.notes = q'.filter.notes ∧
      q.filter.start.toText = q'.filter.start.toText := by
  rw [← Start.parameters_eq_iff]
  constructor
  · intro h
    obtain ⟨hfront, hstart⟩ := List.append_inj h rfl
    simp only [List.cons.injEq, Prod.mk.injEq, true_and, and_true] at hfront
    have hselection : q.selection = q'.selection := by
      have hread := q.ofText?_selection
      rw [hfront, q'.ofText?_selection] at hread
      exact (Option.some.inj hread).symm
    obtain ⟨members, hmembers, -, hselects⟩ := q.selection_eq
    obtain ⟨members', hmembers', -, hselects'⟩ := q'.selection_eq
    obtain rfl : members = members' :=
      Json.object.inj (hmembers.symm.trans (hselection.trans hmembers'))
    obtain ⟨hgln, hcodes, hnotes⟩ :=
      eq_of_selects fun key v => (hselects key v).symm.trans (hselects' key v)
    exact ⟨hgln, hcodes, hnotes, hstart⟩
  · rintro ⟨hgln, hcodes, hnotes, hstart⟩
    rw [parameters, parameters, selection, selection, hgln, hcodes, hnotes, hstart]

end TariffQuery

/-- The one filter among the parameters of a request is a JSON text, which is read back as an object
with the price area, or with exactly the members that select the tariffs, each once. Two requests of
one kind with the same parameters are the same but for their starts, which print alike. -/
theorem parameters_select :
    (∀ q : SpotQuery, ∃ text, (∀ value, ("filter", value) ∈ q.parameters ↔ value = text) ∧
      Json.ofText? text = some (.object [("PriceArea", .string q.area)])) ∧
    (∀ q : TariffQuery, ∃ text, (∀ value, ("filter", value) ∈ q.parameters ↔ value = text) ∧
      ∃ members, Json.ofText? text = some (.object members) ∧ (members.map Prod.fst).Nodup ∧
        ∀ key v, (key, v) ∈ members ↔ q.Selects key v) ∧
    (∀ q q' : SpotQuery, q.parameters = q'.parameters ↔
      q.area = q'.area ∧ q.currency = q'.currency ∧ q.start.toText = q'.start.toText) ∧
    (∀ q q' : TariffQuery, q.parameters = q'.parameters ↔
      q.gln = q'.gln ∧ q.filter.codes = q'.filter.codes ∧ q.filter.notes = q'.filter.notes ∧
        q.filter.start.toText = q'.filter.start.toText) := by
  refine ⟨fun q => ⟨_, q.mem_parameters_filter_iff, q.ofText?_selection⟩,
    fun q => ⟨_, q.mem_parameters_filter_iff, ?_⟩, SpotQuery.parameters_eq_iff,
    TariffQuery.parameters_eq_iff⟩
  obtain ⟨members, hmembers, hnodup, hselects⟩ := q.selection_eq
  exact ⟨members, hmembers ▸ q.ofText?_selection, hnodup, hselects⟩

end HourlyPrices
