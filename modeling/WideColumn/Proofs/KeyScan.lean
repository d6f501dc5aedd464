import WideColumn.Proofs.Access
import WideColumn.Proofs.Comparisons

/-!
# `WideColumn.Proofs.KeyScan`: the partitions a scan covers

A scan of partitions is either a list of keys or a range, and a range tells an open side
by an empty key. So a key that is bounded by the empty value looks like one that is not
bounded at all. The theorems:

* `Compiled.key_cases`: the restriction of the partition key is that of the where clause,
  or the closed range an equality has been turned into.
* `Compiled.covers_iff`: what a scan covers, the empty value being let through.
* `Compiled.keyBound?_iff`: the bounds of a range are comparisons of the query.

A scan covers the keys that the query asks for, and others exactly where a range is
bounded by the empty value.
-/

set_option autoImplicit false

namespace WideColumn

/-- A key lies on the inner side of a bound; the empty bound is open. -/
def Side.Within (side : Side) (bound : Bytes) (inclusive : Bool) (key : Bytes) : Prop :=
  bound = [] ∨ (side.operator inclusive).Holds key bound

namespace KeyScan

/-- The partition with the key is read. -/
def Covers : KeyScan → Bytes → Prop
  | .keys listed, key => key ∈ listed
  | .range start startInclusive finish finishInclusive, key =>
    Side.Within .lower start startInclusive key ∧ Side.Within .upper finish finishInclusive key

/-- Open sides are told as inclusive. -/
def OpenInclusive : KeyScan → Prop
  | .keys _ => True
  | .range start startInclusive finish finishInclusive =>
    (start = [] → startInclusive = true) ∧ (finish = [] → finishInclusive = true)

end KeyScan

namespace Query

variable (query : Query) (settings : Settings) (layout : Layout) (vars : List Bytes)

/-- Every relation on the partition key holds of a key. -/
def KeyHolds (key : Bytes) : Prop :=
  ∀ relation ∈ query.conditions, settings.normalize relation.field = layout.keyField.name →
    relation.Admits fun operator term =>
      ∃ bytes, term.value layout.keyField vars = .ok bytes ∧ operator.Holds key bytes

/-- Some relation compares the partition key with the empty value. -/
def ComparesEmpty (operator : Operator) : Prop :=
  ∃ term, query.Compares settings layout.keyField operator term ∧
    term.value layout.keyField vars = .ok []

end Query

namespace Plan

open Outcome (bind_eq_ok_iff map_eq_ok_iff mapM_eq_ok_iff)
open Restrictions (comparisonsOf)

variable {settings : Settings} {query : Query} {layout : Layout} {indexed : List String}
  {plan : Plan} {bound : Restrictions} {vars : List Bytes} {key : Bytes}

/-! ### The restriction of the partition key -/

/-- The partition key has the restriction that the where clause gives it, or the closed
range that one value has been turned into. -/
theorem Compiled.key_cases (h : Compiled settings query layout indexed plan bound) :
    plan.restriction? layout.keyField = bound.get? layout.keyField.name ∨
      ∃ value, bound.get? layout.keyField.name = some (.equality [value]) ∧
        plan.restriction? layout.keyField =
          some (.range (some ⟨value, true⟩) (some ⟨value, true⟩)) := by
  have hchecked := h.indexChecked
  unfold restriction?
  generalize plan.restrictions = restrictions, plan.indexed = isIndexed at hchecked ⊢
  cases hchecked with
  | plain | unequal => exact .inl rfl
  | rewritten _ _ value key =>
      refine .inr ⟨value, key, ?_⟩
      rw [Restrictions.get?_set, if_pos rfl]

/-- Where a range of keys is read, the partition key has no equality. -/
theorem Compiled.hasEquality_of_range (h : Compiled settings query layout indexed plan bound)
    (hrange : plan.isKeyRange = true) : plan.hasEquality layout.keyField = false := by
  simpa [hrange] using h.isKeyRange_eq.symm

/-- The bounds of a range of keys are comparisons of the query: a bound on its side, or an
equality, which bounds both sides. -/
theorem Compiled.keyBound?_iff (h : Compiled settings query layout indexed plan bound)
    (hrange : plan.isKeyRange = true) {side : Side} {b : Bound} :
    (plan.restriction? layout.keyField).bind (·.bound? side) = some b ↔
      query.Compares settings layout.keyField (side.operator b.inclusive) b.term ∨
        b.inclusive = true ∧ query.Compares settings layout.keyField .eq b.term := by
  simp only [compares_iff h.conditions layout.keyField_mem]
  have hequality := h.hasEquality_of_range hrange
  rcases h.key_cases with hsame | ⟨value, hvalue, hclosed⟩
  · rw [← hsame]
    cases hget : plan.restriction? layout.keyField with
    | none => simp [comparisonsOf]
    | some restriction =>
        cases restriction with
        | equality values => simp [hasEquality, hget, Restriction.isEquality] at hequality
        | range lower upper =>
            -- Among the bounds there is no equality.
            have hbounds : (Operator.eq, b.term) ∉ (Restriction.range lower upper).comparisons := by
              simp [Restriction.comparisons, Side.operator_ne_eq]
            show (Restriction.range lower upper).bound? side = some b ↔
              _ ∈ (Restriction.range lower upper).comparisons ∨
                _ ∧ _ ∈ (Restriction.range lower upper).comparisons
            rw [Restriction.mem_comparisons_range_iff]
            simp [hbounds]
  · rw [hclosed, hvalue]
    have hside : ((some (Restriction.range (some ⟨value, true⟩) (some ⟨value, true⟩))).bind
        (·.bound? side)) = some (⟨value, true⟩ : Bound) := by
      cases side <;> rfl
    rw [hside, Option.some.injEq, eq_comm, Bound.eq_iff]
    simp [comparisonsOf, Restriction.comparisons, Side.operator_ne_eq]

/-! ### What a scan covers -/

/-- A comparison holds of a key, or bounds a range by the empty value. -/
def KeyCheck (plan : Plan) (vars : List Bytes) (key : Bytes) (operator : Operator)
    (term : Term) : Prop :=
  ∃ bytes, term.value plan.layout.keyField vars = .ok bytes ∧
    (operator.Holds key bytes ∨ plan.isKeyRange = true ∧ bytes = [])

/-- An equality is checked as the two bounds it may be turned into. -/
theorem keyCheck_eq_iff (term : Term) :
    plan.KeyCheck vars key .eq term ↔
      plan.KeyCheck vars key .gte term ∧ plan.KeyCheck vars key .lte term := by
  unfold KeyCheck
  constructor
  · rintro ⟨bytes, hbytes, rfl | hopen⟩
    · exact ⟨⟨key, hbytes, .inl (List.le_refl key)⟩, key, hbytes, .inl (List.le_refl key)⟩
    · exact ⟨⟨bytes, hbytes, .inr hopen⟩, bytes, hbytes, .inr hopen⟩
  · rintro ⟨⟨bytes, hbytes, hlower⟩, other, hother, hupper⟩
    obtain rfl : bytes = other := Except.ok.inj (hbytes.symm.trans hother)
    refine ⟨bytes, hbytes, ?_⟩
    rcases hlower with hlower | hopen
    · exact hupper.imp_left fun hupper => List.le_antisymm hupper hlower
    · exact .inr hopen

/-- The restriction of the partition key says what the relations on it say, wherever an
equality is checked as two bounds. -/
theorem Compiled.admits_key_iff (h : Compiled settings query layout indexed plan bound)
    {check : Operator → Term → Prop}
    (hclosed : ∀ term, check .eq term ↔ check .gte term ∧ check .lte term) :
    (∀ restriction, plan.restriction? layout.keyField = some restriction →
      restriction.Admits check) ↔
    ∀ relation ∈ query.conditions, settings.normalize relation.field = layout.keyField.name →
      relation.Admits check := by
  rw [← bindConditions_gathers h.conditions]
  unfold Restrictions.Admit
  rcases h.key_cases with hsame | ⟨value, hvalue, hrange⟩
  · rw [hsame]
  · rw [hvalue, hrange]
    simp [Restriction.Admits, Bound.Admits, Side.operator, hclosed]

/-- The key on a side of a range is the term of the bound there, if there is one. -/
theorem keyBound_eq (h : plan.hasEquality plan.layout.keyField = false) (side : Side) :
    plan.keyBound side vars =
      match (plan.restriction? plan.layout.keyField).bind (·.bound? side) with
      | some b => b.term.value plan.layout.keyField vars
      | none => .ok [] := by
  unfold keyBound
  unfold hasEquality at h
  cases hget : plan.restriction? plan.layout.keyField with
  | none => rfl
  | some restriction =>
      cases restriction with
      | equality values => rw [hget] at h; cases h
      | range lower upper => rfl

/-- A key lies within a side of a range where it passes the check of the bound there. -/
theorem within_iff_admits (hequality : plan.hasEquality plan.layout.keyField = false)
    (hrange : plan.isKeyRange = true) {side : Side} {bytes : Bytes}
    (hbytes : plan.keyBound side vars = .ok bytes) :
    side.Within bytes (plan.includesKeyBound side) key ↔
      ∀ b, (plan.restriction? plan.layout.keyField).bind (·.bound? side) = some b →
        b.Admits (plan.KeyCheck vars key) side := by
  rw [keyBound_eq hequality] at hbytes
  unfold Side.Within includesKeyBound
  cases hbound : (plan.restriction? plan.layout.keyField).bind (·.bound? side) with
  | none =>
      rw [hbound] at hbytes
      cases hbytes
      simp
  | some b =>
      rw [hbound] at hbytes
      simp [Bound.Admits, KeyCheck, hbytes, hrange, or_comm]

/-- The keys that are listed pass the check of an equality, and no other ones. -/
theorem mem_keys_iff (hrange : plan.isKeyRange = false) {values : List Term}
    (hvalues : plan.restriction? plan.layout.keyField = some (.equality values))
    {listed : List Bytes} (hlisted : plan.keys vars = .ok listed) :
    key ∈ listed ↔ ∃ term ∈ values, plan.KeyCheck vars key .eq term := by
  have hcheck : ∀ term, plan.KeyCheck vars key .eq term ↔
      term.value plan.layout.keyField vars = .ok key := by
    intro term
    simp [KeyCheck, hrange, Operator.Holds]
  unfold keys at hlisted
  rw [hvalues] at hlisted
  have hpairs := mapM_eq_ok_iff.mp hlisted
  simp only [hcheck]
  constructor
  · exact Outcome.exists_of_forall₂ hpairs.flip
  · intro h
    obtain ⟨term, hterm, hvalue⟩ := h
    obtain ⟨other, hother, hvalue'⟩ := Outcome.exists_of_forall₂ hpairs hterm
    obtain rfl : key = other := Except.ok.inj (hvalue.symm.trans hvalue')
    exact hother

/-- A scan covers a key where the key passes the check of the partition key's
restriction. -/
theorem covers_iff_admits (h : plan.isKeyRange = !plan.hasEquality plan.layout.keyField)
    {scan : KeyScan} (hscan : plan.keyScan vars = .ok scan) :
    scan.Covers key ↔
      ∀ restriction, plan.restriction? plan.layout.keyField = some restriction →
        restriction.Admits (plan.KeyCheck vars key) := by
  rcases keyScan_cases hscan with ⟨hrange, listed, hlisted, rfl⟩ |
    ⟨hrange, start, finish, hstart, hfinish, rfl⟩
  · -- The values of an equality are listed as they are.
    have hequality : plan.hasEquality plan.layout.keyField = true := by
      simpa [hrange] using h.symm
    obtain ⟨values, hvalues⟩ := hasEquality_iff.mp hequality
    show key ∈ listed ↔ _
    rw [mem_keys_iff hrange hvalues hlisted]
    simp [hvalues, Restriction.Admits]
  · -- Each side of a range is the check of one bound.
    have hequality : plan.hasEquality plan.layout.keyField = false := by
      simpa [hrange] using h.symm
    show Side.Within .lower start _ key ∧ Side.Within .upper finish _ key ↔ _
    rw [within_iff_admits hequality hrange hstart, within_iff_admits hequality hrange hfinish]
    unfold hasEquality at hequality
    cases hget : plan.restriction? plan.layout.keyField with
    | none => simp
    | some restriction =>
        cases restriction with
        | equality values => rw [hget] at hequality; cases hequality
        | range lower upper => simp [Restriction.Admits, Restriction.bound?]

/-- A scan covers a key where all relations on the partition key pass the check. -/
theorem Compiled.covers_iff (h : Compiled settings query layout indexed plan bound)
    {scan : KeyScan} (hscan : plan.keyScan vars = .ok scan) :
    scan.Covers key ↔
      ∀ relation ∈ query.conditions, settings.normalize relation.field = layout.keyField.name →
        relation.Admits (plan.KeyCheck vars key) := by
  obtain rfl := h.layout_eq
  rw [covers_iff_admits h.isKeyRange_eq hscan, h.admits_key_iff keyCheck_eq_iff]

/-! ### Bounds that are empty -/

/-- A side that is bounded by the empty value is told as an empty key. -/
theorem Compiled.keyBound_of_empty (h : Compiled settings query layout indexed plan bound)
    (hrange : plan.isKeyRange = true) {side : Side} {b : Bound}
    (hbound : (plan.restriction? layout.keyField).bind (·.bound? side) = some b)
    (hempty : b.term.value layout.keyField vars = .ok []) : plan.keyBound side vars = .ok [] := by
  have hequality := h.hasEquality_of_range hrange
  rw [keyBound_eq (h.layout_eq ▸ hequality), h.layout_eq, hbound]
  exact hempty

/-- A side is told as empty and exclusive where the query bounds it strictly by the empty
value. -/
theorem Compiled.empty_exclusive_iff (h : Compiled settings query layout indexed plan bound)
    (hrange : plan.isKeyRange = true) {side : Side} {bytes : Bytes}
    (hbytes : plan.keyBound side vars = .ok bytes) :
    bytes = [] ∧ plan.includesKeyBound side = false ↔
      query.ComparesEmpty settings layout vars (side.operator false) := by
  have hequality := h.hasEquality_of_range hrange
  rw [keyBound_eq (h.layout_eq ▸ hequality), h.layout_eq] at hbytes
  unfold includesKeyBound
  rw [h.layout_eq]
  cases hbound : (plan.restriction? layout.keyField).bind (·.bound? side) with
  | none =>
      -- A side without a bound is always included.
      refine iff_of_false (fun h => Bool.noConfusion h.2) ?_
      rintro ⟨term, hcompares, -⟩
      have hterm := (h.keyBound?_iff (b := ⟨term, false⟩) hrange).mpr (.inl hcompares)
      rw [hbound] at hterm
      cases hterm
  | some b =>
      rw [hbound] at hbytes
      constructor
      · rintro ⟨rfl, hexclusive⟩
        have hcompares := (h.keyBound?_iff hrange).mp hbound
        simp only [hexclusive, Bool.false_eq_true, false_and, or_false] at hcompares
        exact ⟨b.term, hcompares, hbytes⟩
      · rintro ⟨term, hcompares, hempty⟩
        have hterm := (h.keyBound?_iff (b := ⟨term, false⟩) hrange).mpr (.inl hcompares)
        obtain rfl : b = ⟨term, false⟩ := Option.some.inj (hbound.symm.trans hterm)
        exact ⟨Except.ok.inj (hbytes.symm.trans hempty), rfl⟩

/-- Where a range of keys is read, a comparison of the partition key holds of every key
the query asks for. -/
theorem Compiled.holds_of_compares (h : Compiled settings query layout indexed plan bound)
    (hrange : plan.isKeyRange = true) {operator : Operator} {term : Term}
    (hkey : query.KeyHolds settings layout vars key)
    (hcompares : query.Compares settings layout.keyField operator term) :
    ∃ bytes, term.value layout.keyField vars = .ok bytes ∧ operator.Holds key bytes := by
  have hequality := h.hasEquality_of_range hrange
  rw [compares_iff h.conditions layout.keyField_mem] at hcompares
  have hadmits := (bindConditions_gathers h.conditions _ _).mpr hkey
  -- No list of several values is left that could be met by another one of them.
  rcases h.key_cases with hsame | ⟨value, hvalue, -⟩
  · unfold hasEquality at hequality
    rw [hsame] at hequality
    cases hget : bound.get? layout.keyField.name with
    | none => rw [hget] at hcompares; cases hcompares
    | some restriction =>
        rw [hget] at hcompares
        cases restriction with
        | equality values => rw [hget] at hequality; cases hequality
        | range lower upper => exact (hadmits _ hget).of_mem_comparisons hcompares
  · rw [hvalue] at hcompares
    obtain ⟨rfl, rfl⟩ : operator = .eq ∧ term = value := by
      simpa [comparisonsOf, Restriction.comparisons] using hcompares
    obtain ⟨_, hmem, hholds⟩ := hadmits _ hvalue
    rwa [List.mem_singleton.mp hmem] at hholds

/-- The empty key is on the inner side of every upper bound. -/
theorem within_nil (finish : Bytes) (inclusive : Bool) :
    Side.Within .upper finish inclusive [] := by
  cases finish with
  | nil => exact .inl rfl
  | cons byte rest =>
      cases inclusive with
      | true => exact .inr (List.nil_le (byte :: rest))
      | false => exact .inr (List.nil_lt_cons byte rest)

/-- A key with one byte more is on the inner side of a lower bound. -/
theorem within_snoc (start : Bytes) (inclusive : Bool) :
    Side.Within .lower start inclusive (start ++ [0]) := by
  have hlt : start ++ [] < start ++ [0] := List.append_left_lt (List.nil_lt_cons 0 [])
  rw [List.append_nil] at hlt
  cases inclusive with
  | true => exact .inr (List.le_of_lt hlt)
  | false => exact .inr hlt

/-- A range that is bounded by the empty value, other than from below and with it, covers
a key that the query does not ask for. -/
theorem Compiled.exists_excess_key (h : Compiled settings query layout indexed plan bound)
    (hrange : plan.isKeyRange = true) {scan : KeyScan} (hscan : plan.keyScan vars = .ok scan)
    {operator : Operator} (hoperator : operator ≠ .gte)
    (hempty : query.ComparesEmpty settings layout vars operator) :
    ∃ key, scan.Covers key ∧ ¬ query.KeyHolds settings layout vars key := by
  obtain ⟨start, finish, hstart, hfinish, rfl⟩ : ∃ start finish,
      plan.keyBound .lower vars = .ok start ∧ plan.keyBound .upper vars = .ok finish ∧
      scan = .range start (plan.includesKeyBound .lower) finish
        (plan.includesKeyBound .upper) := by
    simpa [hrange] using keyScan_cases hscan
  obtain ⟨term, hcompares, hvalue⟩ := hempty
  -- No other key passes, because the term has the empty value.
  have hholds : ∀ key, query.KeyHolds settings layout vars key → operator.Holds key [] := by
    intro key hkey
    obtain ⟨bytes, hbytes, hholds⟩ := h.holds_of_compares hrange hkey hcompares
    rw [hvalue] at hbytes
    cases hbytes
    exact hholds
  have hnil : ∀ {side : Side} {bytes : Bytes}, plan.keyBound side vars = .ok bytes →
      ∀ inclusive, query.Compares settings layout.keyField (side.operator inclusive) term ∨
        inclusive = true ∧ query.Compares settings layout.keyField .eq term → bytes = [] := by
    intro side bytes hbytes inclusive hside
    have hbound := (h.keyBound?_iff (b := ⟨term, inclusive⟩) hrange).mpr hside
    exact Except.ok.inj (hbytes.symm.trans (h.keyBound_of_empty hrange hbound hvalue))
  cases operator with
  | gte => exact absurd rfl hoperator
  | gt =>
      obtain rfl := hnil hstart false (.inl hcompares)
      refine ⟨[], ⟨.inl rfl, within_nil finish _⟩, fun hkey => ?_⟩
      exact List.not_lt_nil [] (hholds _ hkey)
  | lt =>
      obtain rfl := hnil hfinish false (.inl hcompares)
      refine ⟨start ++ [0], ⟨within_snoc start _, .inl rfl⟩, fun hkey => ?_⟩
      exact List.not_lt_nil _ (hholds _ hkey)
  | lte =>
      obtain rfl := hnil hfinish true (.inl hcompares)
      refine ⟨start ++ [0], ⟨within_snoc start _, .inl rfl⟩, fun hkey => ?_⟩
      exact absurd (List.le_nil.mp (hholds _ hkey)) (by simp)
  | eq =>
      obtain rfl := hnil hfinish true (.inr ⟨rfl, hcompares⟩)
      refine ⟨start ++ [0], ⟨within_snoc start _, .inl rfl⟩, fun hkey => ?_⟩
      exact absurd (hholds _ hkey) (by simp [Operator.Holds])

/-! ### Accepted queries -/

/-- Of a query without bounds by the empty value, other than from below and with it, a
scan covers exactly the keys the query asks for. -/
theorem Compiled.covers_iff_holds (h : Compiled settings query layout indexed plan bound)
    {scan : KeyScan} (hscan : plan.keyScan vars = .ok scan)
    (hempty : plan.isKeyRange = true → ∀ operator, operator ≠ .gte →
      ¬ query.ComparesEmpty settings layout vars operator) :
    scan.Covers key ↔ query.KeyHolds settings layout vars key := by
  obtain rfl := h.layout_eq
  rw [h.covers_iff hscan]
  refine forall₃_congr fun relation hrelation hname =>
    Relation.admits_congr fun comparison hmem => ?_
  refine exists_congr fun bytes => and_congr_right fun hvalue => or_iff_left_of_imp ?_
  -- What is let through is a bound that the empty value meets.
  rintro ⟨hrange, rfl⟩
  by_cases hoperator : comparison.1 = .gte
  · rw [hoperator]
    exact List.nil_le key
  · exact absurd ⟨comparison.2, ⟨relation, hrelation, hname, hmem⟩, hvalue⟩
      (hempty hrange comparison.1 hoperator)

/-- A scan covers every key the query asks for. -/
theorem Compiled.covers_of_holds (h : Compiled settings query layout indexed plan bound)
    {scan : KeyScan} (hscan : plan.keyScan vars = .ok scan)
    (hkey : query.KeyHolds settings layout vars key) : scan.Covers key := by
  obtain rfl := h.layout_eq
  rw [h.covers_iff hscan]
  intro relation hrelation hname
  refine (hkey relation hrelation hname).imp fun operator term hholds => ?_
  exact hholds.imp fun bytes => And.imp_right .inl

/-- The sides of a range that are told as empty and exclusive. -/
theorem Compiled.exclusive_iff (h : Compiled settings query layout indexed plan bound)
    {start finish : Bytes} {startInclusive finishInclusive : Bool}
    (hscan : plan.keyScan vars = .ok (.range start startInclusive finish finishInclusive)) :
    plan.isKeyRange = true ∧
      (start = [] ∧ startInclusive = false ↔ query.ComparesEmpty settings layout vars .gt) ∧
      (finish = [] ∧ finishInclusive = false ↔ query.ComparesEmpty settings layout vars .lt) := by
  rcases keyScan_cases hscan with ⟨-, _, -, hkeys⟩ | ⟨hrange, _, _, hstart, hfinish, hsides⟩
  · cases hkeys
  · cases hsides
    exact ⟨hrange, h.empty_exclusive_iff hrange hstart, h.empty_exclusive_iff hrange hfinish⟩

/-- A scan covers every key the query asks for. It covers no other one, and tells open sides
as inclusive, exactly where no range of keys is bounded by the empty value other than
from below and with it. A side is told as empty and exclusive exactly where the query has
a strict bound there by the empty value. -/
theorem keyScan_covers_iff (h : compile settings query layout indexed = .ok plan)
    {scan : KeyScan} (hscan : plan.keyScan vars = .ok scan) :
    ((∀ key, scan.Covers key ↔ query.KeyHolds settings layout vars key) ∧ scan.OpenInclusive ↔
      (plan.isKeyRange = true → ∀ operator, operator ≠ .gte →
        ¬ query.ComparesEmpty settings layout vars operator)) ∧
    (∀ key, query.KeyHolds settings layout vars key → scan.Covers key) ∧
    ∀ start startInclusive finish finishInclusive,
      scan = .range start startInclusive finish finishInclusive →
      (start = [] ∧ startInclusive = false ↔ query.ComparesEmpty settings layout vars .gt) ∧
      (finish = [] ∧ finishInclusive = false ↔ query.ComparesEmpty settings layout vars .lt) := by
  obtain ⟨bound, hcompiled⟩ := compile_eq_ok h
  refine ⟨⟨fun hexact hrange operator hoperator hempty => ?_, fun hempty => ?_⟩,
    fun key => hcompiled.covers_of_holds hscan,
    fun start startInclusive finish finishInclusive hsides => ?_⟩
  · obtain ⟨key, hcovers, hkey⟩ :=
      hcompiled.exists_excess_key hrange hscan hoperator hempty
    exact hkey ((hexact.1 key).mp hcovers)
  · refine ⟨fun key => hcompiled.covers_iff_holds hscan hempty, ?_⟩
    cases scan with
    | keys listed => trivial
    | range start startInclusive finish finishInclusive =>
        obtain ⟨hrange, hlower, hupper⟩ := hcompiled.exclusive_iff hscan
        refine ⟨fun hstart => ?_, fun hfinish => ?_⟩
        · -- A bound that is empty and excluded is one that the where clause gives.
          by_contra hexclusive
          exact hempty hrange .gt nofun (hlower.mp ⟨hstart, Bool.eq_false_iff.mpr hexclusive⟩)
        · by_contra hexclusive
          exact hempty hrange .lt nofun (hupper.mp ⟨hfinish, Bool.eq_false_iff.mpr hexclusive⟩)
  · subst hsides
    exact (hcompiled.exclusive_iff hscan).2

/-- The index on the city is read for one account, over a range that covers no other
one. -/
theorem keyScan_covers_iff_accounts :
    ∃ plan scan,
      compile { identifierCase := .preserve } accountInCity accounts ["city"] = .ok plan ∧
      plan.keyScan [[0x61], [0x62]] = .ok scan ∧
      (∀ key, scan.Covers key ↔
        accountInCity.KeyHolds { identifierCase := .preserve } accounts [[0x61], [0x62]] key) ∧
      scan.OpenInclusive := by
  have hcovers := @keyScan_covers_iff { identifierCase := .preserve } accountInCity accounts
    ["city"] _ [[0x61], [0x62]] rfl _ rfl
  refine ⟨_, _, rfl, rfl, hcovers.1.mpr ?_⟩
  rintro - operator - ⟨term, ⟨relation, hrelation, hname, hmem⟩, hempty⟩
  -- The only relation on the key compares it with the first variable, which is not empty.
  rcases List.mem_cons.mp hrelation with rfl | hrest
  · cases List.mem_singleton.mp hmem
    cases hempty
  · cases List.mem_singleton.mp hrest
    exact absurd hname (by decide)

/-- All accounts after the one with the empty name. -/
def laterAccounts : Query :=
  { table := "accounts", conditions := [.compare ⟨"id", true⟩ .gt (.bind 0)] }

/-- The index is read over all accounts where the account with the empty name is asked for;
and a range that starts after it is told to be open and exclusive. -/
theorem keyScan_excess_accounts :
    (∃ plan scan,
      compile { identifierCase := .preserve } accountInCity accounts ["city"] = .ok plan ∧
      plan.keyScan [[], [0x62]] = .ok scan ∧ scan.Covers [0x63] ∧
      ¬ accountInCity.KeyHolds { identifierCase := .preserve } accounts [[], [0x62]] [0x63]) ∧
    ∃ plan scan, compile { identifierCase := .preserve } laterAccounts accounts [] = .ok plan ∧
      plan.keyScan [[]] = .ok scan ∧ ¬ scan.OpenInclusive := by
  refine ⟨⟨_, _, rfl, rfl, ⟨.inl rfl, .inl rfl⟩, fun hkey => ?_⟩, _, _, rfl, rfl, fun hopen => ?_⟩
  · obtain ⟨bytes, hvalue, hholds⟩ := hkey _ List.mem_cons_self rfl
    cases hvalue
    cases hholds
  · cases hopen.1 rfl

end Plan

end WideColumn
