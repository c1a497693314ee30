import RollupInput.Proofs.Abi.TooShort

/-!
# What the size check keeps from being read

Data that is refused for its size is never read. The check asks for the head that the types declare,
in which everything dynamic has a word; the reader asks for the least words of the values. So what is
refused would not be read either, with two exceptions: types that are all made of nothing, of which
no values are read whatever the data, and dynamic types without any word, of which each may lack the
word that the head has for it.
-/

namespace RollupInput.Abi

namespace AbiType

/-- Whether a type counts as dynamic although its values take no words: an array of no elements of a
dynamic type, and tuples and arrays of such ones. -/
def isHollow (t : AbiType) : Bool := t.isDynamic && t.leastWords == 0

/-- A type has at most its least words in the head, and a hollow one has one more. -/
theorem headWords_le (t : AbiType) : t.headWords ≤ t.leastWords + t.isHollow.toNat := by
  unfold isHollow
  cases hdynamic : t.isDynamic with
  | false =>
    rw [headWords_of_static t hdynamic]
    exact Nat.le_add_right _ _
  | true =>
    rw [headWords_of_dynamic hdynamic, Bool.true_and]
    by_cases hleast : t.leastWords = 0
    · rw [hleast]
      decide
    · exact Nat.le_add_right_of_le (Nat.pos_of_ne_zero hleast)

/-- Types have at most their least words in the head, and a word for each hollow one. -/
theorem headWordsSum_le (ts : List AbiType) :
    headWordsSum ts ≤ leastWordsSum ts + ts.countP isHollow := by
  induction ts with
  | nil => exact Nat.zero_le _
  | cons t rest ih =>
    have hfirst := t.headWords_le
    have hcount : (t :: rest).countP isHollow = rest.countP isHollow + t.isHollow.toNat := by
      rw [List.countP_cons]
      cases t.isHollow <;> rfl
    rw [headWordsSum, leastWordsSum, hcount]
    omega

end AbiType

variable {params : List Param} {types : List AbiType} {data : List UInt8}

/-- Data that lacks more of the head than a word for each hollow type has less than the least words of
the types, and is not read. -/
theorem decode_of_short [Memory] (hsome : AbiType.allEmpty types = false)
    (hshort : data.length + wordBytes * types.countP AbiType.isHollow <
      wordBytes * AbiType.headWordsSum types) : decode types data = .error .overrun := by
  have hhead := AbiType.headWordsSum_le types
  have hleast : data.length / wordBytes < AbiType.leastWordsSum types := by
    unfold wordBytes at hshort ⊢
    omega
  unfold decode
  rw [hsome, if_neg Bool.false_ne_true, if_pos hleast]

/-- Data that is refused for its size would not be read for the types either, if these are not all
made of nothing and hide no count: it would overrun. Only if hollow types are among them may the
data be refused and yet be read, and then it lacks at most a word for each of them. -/
theorem decode_of_isTooShort [Memory] (hdata : data.length < wordLimit)
    (hrefused : IsTooShort (decodeValues params data))
    (hexact : AbiType.anyHidesOverflow (params.map Param.type) = false)
    (hsome : AbiType.allEmpty (params.map Param.type) = false) :
    decode (params.map Param.type) data = .error .overrun ∨
      (∃ p ∈ params, p.type.isHollow = true) ∧
        wordBytes * AbiType.headWordsSum (params.map Param.type) ≤
          data.length + wordBytes * (params.map Param.type).countP AbiType.isHollow := by
  have hne : params ≠ [] := by
    rintro rfl
    cases hsome
  have hshort := (isTooShort_iff_of_exact hne hdata hexact).mp hrefused
  rcases Nat.lt_or_ge (data.length + wordBytes * (params.map Param.type).countP AbiType.isHollow)
    (wordBytes * AbiType.headWordsSum (params.map Param.type)) with hless | hmost
  · exact .inl (decode_of_short hsome hless)
  · have hcount : 0 < (params.map Param.type).countP AbiType.isHollow := by
      unfold wordBytes at hshort hmost
      omega
    obtain ⟨t, ht, hhollow⟩ := List.countP_pos_iff.mp hcount
    obtain ⟨p, hp, rfl⟩ := List.mem_map.mp ht
    exact .inr ⟨⟨p, hp, hhollow⟩, hmost⟩

/-- An array of no texts, and a number. -/
def hollowParams : List Param :=
  [⟨some "s", "string[0]", .fixedArray .string 0, []⟩, ⟨some "y", "uint256", .uint 256, []⟩]

attribute [local instance] Memory.usual

/-- Without any data neither the array of no texts nor the number behind it is read. -/
theorem hollowParams_overrun :
    ([] : List UInt8).length < wordLimit ∧ IsTooShort (decodeValues hollowParams []) ∧
      AbiType.anyHidesOverflow (hollowParams.map Param.type) = false ∧
      AbiType.allEmpty (hollowParams.map Param.type) = false ∧
      decode (hollowParams.map Param.type) [] = .error .overrun := by
  have hdata : ([] : List UInt8).length < wordLimit := by decide
  have hne : hollowParams ≠ [] := List.cons_ne_nil _ _
  have hexact : AbiType.anyHidesOverflow (hollowParams.map Param.type) = false := by decide
  have hsome : AbiType.allEmpty (hollowParams.map Param.type) = false := by decide
  have hrefused : IsTooShort (decodeValues hollowParams []) :=
    (isTooShort_iff_of_exact hne hdata hexact).mpr (by decide)
  refine ⟨hdata, hrefused, hexact, hsome, ?_⟩
  exact (decode_of_isTooShort hdata hrefused hexact hsome).resolve_right fun h =>
    absurd h.2 (by decide)

/-- The array of no texts as it is written. -/
def writtenHollow : List Declaration.Written :=
  [.elementary "string".toList ⟨[], [⟨[], some 0, []⟩], [], some (Declaration.spaced "x"), []⟩]

/-- The parameter that is written. -/
def hollowParam : Param := ⟨some "x", "string[0]", .fixedArray .string 0, []⟩

/-- Data may be refused for its size that would be read: an array of no texts needs no data, but its
head has a word. -/
theorem not_forall_isTooShort_fails :
    ¬∀ declarations params (data : List UInt8), Declaration.parse declarations = .ok params →
      IsTooShort (decodeValues params data) →
      ∃ misfit, decode (params.map Param.type) data = .error misfit := by
  intro hall
  have hparse : Declaration.parse ["string[0] x"] = .ok [hollowParam] :=
    eq_ok_of_toOption (@Declaration.toOption_parse_of_known [writtenHollow] _
      (by simp [writtenHollow]) (by decide +kernel) (by rfl))
  have hrefused : IsTooShort (decodeValues [hollowParam] []) :=
    (isTooShort_iff_of_exact (List.cons_ne_nil _ _) (by decide) (by decide)).mpr (by decide)
  obtain ⟨misfit, hmisfit⟩ := hall _ _ [] hparse hrefused
  have hread : decode ([hollowParam].map Param.type) [] = .ok [] := decode_of_allEmpty (by decide)
  rw [hread] at hmisfit
  cases hmisfit

end RollupInput.Abi
