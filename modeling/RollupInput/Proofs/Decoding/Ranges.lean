import RollupInput.Proofs.Abi.Room
import RollupInput.Proofs.Abi.Static
import RollupInput.Proofs.Declaration.Alone
import RollupInput.Proofs.Decoding.Distinct
import RollupInput.Proofs.Decoding.Names
import RollupInput.Proofs.Payload

/-!
# Static parameters as ranges

Parameters of static types stand one after the other, each in its own words. So a payload of them can
be decoded as a whole, or cut into ranges that are decoded each by its own declaration, under the
names that the declarations give or else the ones that the places give. Both come to one result. The
induction runs along the payload, with the index of a parameter and the word on which it starts.
-/

namespace RollupInput.Decoding

open Abi

/-- A declaration of one parameter of a static type without empty parts, which defines no struct. -/
structure StaticDeclaration where
  /-- The text. -/
  text : String
  /-- The parameter. -/
  param : Param
  /-- No struct is defined. -/
  structless : ∃ left, Declaration.takeStructs [] text.toList = .ok ([], left)
  /-- By itself the text is read as the parameter. -/
  parsed : Declaration.parse [text] = .ok [param]
  /-- The type is static. -/
  static : param.type.isDynamic = false
  /-- The type holds no array of no elements and no tuple of no fields. -/
  solid : param.type.isSolid = true

namespace StaticDeclaration

/-- The number of words of a value. -/
def words (d : StaticDeclaration) : Nat := d.param.type.leastWords

/-- The range of the value of the parameter at an index, which starts on a word. -/
def range (d : StaticDeclaration) (index start : Nat) : ByteRange :=
  ⟨wordBytes * start, some (wordBytes * (start + d.words)), some s!"params{index}", some d.text,
    none⟩

/-- The ranges of the values of parameters that follow each other. -/
def ranges (index start : Nat) : List StaticDeclaration → List ByteRange
  | [] => []
  | d :: rest => d.range index start :: ranges (index + 1) (start + d.words) rest

/-- The declaration is read without being cut. -/
theorem readsAlone (d : StaticDeclaration) :
    Declaration.ReadsAlone d.text.toList d.param :=
  let ⟨_, hstructs⟩ := d.structless
  Declaration.readsAlone_of_parse hstructs d.parsed

/-- The declarations are read together as their parameters. -/
theorem parse_texts (ds : List StaticDeclaration) :
    Declaration.parse (ds.map text) = .ok (ds.map param) := by
  refine Declaration.parse_of_readsAlone ?_
  induction ds with
  | nil => exact .nil
  | cons d rest ih => exact .cons d.readsAlone ih

end StaticDeclaration

open StaticDeclaration

/-- The name of a place has no blanks. -/
theorem nonBlank?_place (index : Nat) :
    Text.nonBlank? s!"params{index}" = some s!"params{index}" := by
  have hdecimal : (toString index).toList = Text.decimal index := String.toList_ofList
  have htext : (s!"params{index}").toList = "params".toList ++ Text.decimal index := by
    rw [← hdecimal]
    exact String.toList_append
  refine Text.nonBlank?_of_isWord ⟨?_, fun c hc => ?_⟩
  · rw [htext]
    exact List.append_ne_nil_of_left_ne_nil (by decide) _
  · rw [htext] at hc
    rcases List.mem_append.mp hc with hc | hc
    · have hall : ("params".toList.all fun x => !Text.isBlank x) = true := by decide
      simpa using List.all_eq_true.mp hall c hc
    · exact Text.isBlank_of_isIdentifierChar
        (Text.isIdentifierChar_of_isDigit (Text.isDigit_of_mem_decimal hc))

variable {payload : List UInt8}

/-- Bytes between two positions of a payload are cut out, and stand in it. -/
theorem exists_of_extract {start stop : Nat} (hlt : start < stop) (hle : stop ≤ payload.length) :
    ∃ bs, Payload.extract payload start (some stop) = .ok bs ∧
      StandsAt payload.toArray start bs ∧ bs.length = stop - start := by
  have hwithin : Payload.IsWithin payload.length start (some stop) := by
    rw [Payload.isWithin_some_iff]
    omega
  refine ⟨(payload.take stop).drop start, ?_, ⟨payload.take start, payload.drop stop, ?_, ?_⟩, ?_⟩
  · rw [Payload.extract_of_isWithin hwithin, Payload.between_some]
  · have htake : payload.take start = (payload.take stop).take start := by
      rw [List.take_take, Nat.min_eq_left (Nat.le_of_lt hlt)]
    rw [htake, List.take_append_drop, List.take_append_drop]
  · rw [List.length_take]
    omega
  · rw [List.length_drop, List.length_take]
    omega

/-- The range of a parameter is decoded as the value that is read on its words. -/
theorem rangePiece_of_static [Memory] (d : StaticDeclaration) {index start n : Nat} {v : Value}
    (hhead : d.param.type.wordsInHead = some n) (hn : n * 32 < wordLimit)
    (hroom : d.param.type.shortage 0 = none)
    (hfits : wordBytes * (start + d.words) ≤ payload.length)
    (hread : ((valueReader payload.toArray 0 d.param.type).read 0 (wordBytes * start)).outcome =
      .ok v)
    (hweight : ((valueReader payload.toArray 0 d.param.type).read 0 (wordBytes * start)).weight ≤
      maxRoom) :
    ∃ piece, rangePiece payload index (d.range index start) = .ok piece ∧
      (piece.name, piece.value) = (parameterName index d.param, label d.param.components v) := by
  have hpos : 0 < d.words := AbiType.leastWords_pos d.param.type d.solid
  have hsum : wordBytes * (start + d.words) = wordBytes * start + wordBytes * d.words :=
    Nat.mul_add ..
  have hlt : wordBytes * start < wordBytes * (start + d.words) :=
    Nat.mul_lt_mul_of_pos_left (by omega) (by decide)
  obtain ⟨bs, hextract, hstands, hlen⟩ := exists_of_extract hlt hfits
  have hvalue := decodeValues_of_static d.static d.solid hhead hn hroom hstands
    (by rw [hlen, hsum, Nat.add_sub_cancel_left]; rfl) hread hweight
  refine ⟨⟨parameterName index d.param, bs, some (label d.param.components v)⟩, ?_, rfl⟩
  have hlisted : (d.range index start).listedName index = s!"params{index}" := by
    unfold ByteRange.listedName range
    dsimp only
    rw [Option.bind_some, nonBlank?_place]
    rfl
  unfold rangePiece
  dsimp only
  rw [hlisted]
  unfold range
  dsimp only
  rw [hextract, Option.bind_some, Declaration.nonBlank?_of_readsAlone d.readsAlone]
  dsimp only
  unfold typedPiece
  rw [Declaration.parse_trimmed_of_readsAlone d.readsAlone]
  dsimp only
  rw [hvalue]
  rfl

/-- The ranges of parameters are decoded as the values that are read on their words, under the names
of the parameters. -/
theorem rangePieces_of_static [Memory]
    (ds : List StaticDeclaration) {index start total size inUse : Nat}
    {vs : List Value} (hhead : Param.headBytesFrom total (ds.map param) = some size)
    (hroom : AbiType.firstShortage inUse ((ds.map param).map Param.type) = none)
    (hfits : wordBytes * (start + AbiType.leastWordsSum ((ds.map param).map Param.type)) ≤
      payload.length)
    (hread : (readEach 0 (fieldReaders payload.toArray 0 ((ds.map param).map Param.type))
      (wordBytes * start)).outcome = .ok vs)
    (hweight : (readEach 0 (fieldReaders payload.toArray 0 ((ds.map param).map Param.type))
      (wordBytes * start)).weight ≤ maxRoom) :
    ∃ pieces, rangePieces payload index (ranges index start ds) = (pieces, none) ∧
      pieces.map (fun p => (p.name, p.value)) =
        ((ds.map param).mapIdx fun i p => parameterName (i + index) p).zip
          (List.zipWith (fun v (p : Param) => label p.components v) vs (ds.map param)) := by
  induction ds generalizing index start total inUse vs with
  | nil => exact ⟨[], rfl, rfl⟩
  | cons d rest ih =>
    rw [List.map_cons] at hhead
    rw [List.map_cons, List.map_cons, AbiType.firstShortage, Option.or_eq_none_iff] at hroom
    rw [List.map_cons, List.map_cons, AbiType.leastWordsSum, ← Nat.add_assoc] at hfits
    rw [List.map_cons, List.map_cons, fieldReaders] at hread hweight
    obtain ⟨n, hn, hcount, sum, hmoreHead⟩ := exists_of_headBytesFrom hhead
    have hsum := weight_of_readEach hread
    obtain ⟨v, ws, rfl, hv, hws⟩ := exists_of_readEach hread
    have hplace : wordBytes * start + (valueReader payload.toArray 0 d.param.type).placeBytes =
        wordBytes * (start + d.words) := by
      rw [placeBytes_of_static payload.toArray 0 d.static, Nat.mul_add]
      rfl
    rw [hplace] at hws hsum
    rw [hsum] at hweight
    -- The whole takes the room of all values, so what it does not exceed no range exceeds alone.
    have hfirst : wordBytes * (start + d.words) ≤ payload.length :=
      Nat.le_trans (Nat.mul_le_mul_left _ (Nat.le_add_right _ _)) hfits
    obtain ⟨piece, hpiece, hentry⟩ := @rangePiece_of_static payload _ d index start n v hn hcount
      (d.param.type.shortage_eq_none_of_le (Nat.zero_le _) hroom.1) hfirst hv (by omega)
    obtain ⟨pieces, hpieces, hentries⟩ := @ih (index + 1) (start + d.words) sum _ ws hmoreHead
      hroom.2 hfits hws (by omega)
    refine ⟨piece :: pieces, ?_, ?_⟩
    · rw [ranges, rangePieces, hpiece]
      dsimp only
      rw [hpieces]
    · rw [List.map_cons, hentry, hentries, List.map_cons, List.mapIdx_cons, List.zipWith_cons_cons,
        List.zip_cons_cons]
      simp only [Nat.zero_add, Nat.add_assoc, Nat.add_comm 1 index]

/-- A payload that declarations of static parameters decode as a whole holds their words, from which
the values of the result are read. -/
theorem exists_of_whole [Memory]
    {ds : List StaticDeclaration} (hne : ds ≠ []) {spec : Specification}
    {absent : Option (List ByteRange)} (habsent : absent.getD [] = [])
    (hmode : spec.mode = .params ⟨ds.map text, absent, none⟩)
    (h : (run spec payload).isResolved = true) :
    ∃ size vs, Param.headBytesFrom 0 (ds.map param) = some size ∧
      AbiType.firstShortage 0 ((ds.map param).map Param.type) = none ∧
      wordBytes * AbiType.leastWordsSum ((ds.map param).map Param.type) ≤ payload.length ∧
      (readEach 0 (fieldReaders payload.toArray 0 ((ds.map param).map Param.type)) 0).outcome =
        .ok vs ∧
      (readEach 0 (fieldReaders payload.toArray 0 ((ds.map param).map Param.type)) 0).weight ≤
        maxRoom ∧
      (run spec payload).result = NamedValues.empty.insertAll
        (((ds.map param).mapIdx parameterName).zip
          (List.zipWith (fun v (p : Param) => label p.components v) vs (ds.map param))) := by
  obtain ⟨pieces, more, hcut, hunwrap, hrun⟩ := run_of_isResolved hmode h
  cases hunwrap
  unfold Decoding.cut at hcut
  dsimp only at hcut
  rw [habsent] at hcut
  dsimp only at hcut
  cases hpieces : paramPieces (ds.map text) payload with
  | error e =>
    rw [hpieces] at hcut
    cases hcut
  | ok found =>
    rw [hpieces] at hcut
    cases hcut
    obtain ⟨params, values, hparse, hvalues, rfl⟩ := exists_of_paramPieces hpieces
    rw [parse_texts] at hparse
    cases hparse
    have hparams : ds.map param ≠ [] := fun hc => hne (List.map_eq_nil_iff.mp hc)
    obtain ⟨size, vs, hsize, -, hdecode, rfl⟩ := (decodeValues_eq_ok_iff hparams).mp hvalues
    have hempty : AbiType.allEmpty ((ds.map param).map Param.type) = false := by
      cases ds with
      | nil => exact absurd rfl hne
      | cons d rest =>
        rw [List.map_cons, List.map_cons, AbiType.allEmpty, AbiType.isEmpty_eq_false _ d.solid]
        rfl
    obtain ⟨hleast, hroom, hweight, hread⟩ := (decode_eq_ok_iff hempty).mp hdecode
    refine ⟨size, vs, hsize, hroom, ?_, hread, hweight, ?_⟩
    · exact (Nat.mul_le_mul_left _ hleast).trans (Nat.mul_div_le _ _)
    · rw [hrun]
      dsimp only [finished]
      rw [List.append_nil, fold_none, entries_of_pieceOf]

/-- Cutting a payload into ranges agrees with decoding it as a whole: if declarations of static
parameters decode a payload, then so do the ranges of their words, each with its own declaration as
type, and the results are the same. -/
theorem run_of_ranges [Memory]
    {ds : List StaticDeclaration} (hne : ds ≠ []) {whole sliced : Specification}
    {absent : Option (List ByteRange)} {declarations : List String}
    (habsent : absent.getD [] = []) (hwhole : whole.mode = .params ⟨ds.map text, absent, none⟩)
    (hsliced : sliced.mode = .params ⟨declarations, some (ranges 0 0 ds), none⟩)
    (h : (run whole payload).isResolved = true) :
    (run sliced payload).isResolved = true ∧
      (run sliced payload).result = (run whole payload).result := by
  obtain ⟨size, vs, hhead, hroom, hfits, hread, hweight, hresult⟩ :=
    exists_of_whole hne habsent hwhole h
  obtain ⟨pieces, hpieces, hentries⟩ := @rangePieces_of_static payload _ ds 0 0 0 size 0 vs hhead
    hroom (by rwa [Nat.zero_add]) hread hweight
  have hranges : ranges 0 0 ds ≠ [] := by
    cases ds with
    | nil => exact absurd rfl hne
    | cons d rest => exact List.cons_ne_nil _ _
  have hcut := @cut_of_ranges _ ⟨declarations, some (ranges 0 0 ds), none⟩ _ rfl hranges payload
  have hrun : run sliced payload = finished sliced payload (pieces ++ []) (fold none (pieces ++ [])) := by
    rw [run_of_params hsliced, hcut, hpieces]
    rfl
  rw [hrun, hresult]
  refine ⟨rfl, ?_⟩
  dsimp only [finished]
  rw [List.append_nil, fold_none, hentries]
  rfl

/-- A number with a name, as it is written. -/
def writtenId : List Declaration.Written :=
  [.elementary "uint".toList ⟨[], [], [], some (Declaration.spaced "id"), []⟩]

/-- A number with a name. -/
def idDeclaration : StaticDeclaration where
  text := "uint id"
  param := ⟨some "id", "uint256", .uint 256, []⟩
  structless := ⟨_, Declaration.takeStructs_of_cutAtKeyword? rfl []⟩
  parsed := eq_ok_of_toOption (@Declaration.toOption_parse_of_known [writtenId] _
    (by simp [writtenId]) (by decide +kernel) (by rfl))
  static := rfl
  solid := rfl

/-- Two truth values without a name, as they are written behind a blank. -/
def writtenFlags : List Declaration.Written :=
  [.elementary "bool".toList ⟨[' '], [⟨[], some 2, []⟩], [], none, []⟩]

/-- Two truth values without a name. -/
def flagsDeclaration : StaticDeclaration where
  text := " bool[2]"
  param := ⟨none, "bool[2]", .fixedArray .bool 2, []⟩
  structless := ⟨_, Declaration.takeStructs_of_cutAtKeyword? rfl []⟩
  parsed := eq_ok_of_toOption (@Declaration.toOption_parse_of_known [writtenFlags] _
    (by simp [writtenFlags]) (by decide +kernel) (by rfl))
  static := rfl
  solid := rfl

attribute [local instance] Memory.usual

/-- Three words are decoded alike as a whole and by their ranges. -/
theorem idAndFlags_agree :
    [idDeclaration, flagsDeclaration] ≠ [] ∧
    (run (bare ⟨[idDeclaration, flagsDeclaration].map text, none, none⟩)
      (List.replicate 96 1)).isResolved = true ∧
    (run (bare ⟨[], some (ranges 0 0 [idDeclaration, flagsDeclaration]), none⟩)
      (List.replicate 96 1)).isResolved = true ∧
    (run (bare ⟨[], some (ranges 0 0 [idDeclaration, flagsDeclaration]), none⟩)
        (List.replicate 96 1)).result =
      (run (bare ⟨[idDeclaration, flagsDeclaration].map text, none, none⟩)
        (List.replicate 96 1)).result := by
  have hne : [idDeclaration, flagsDeclaration] ≠ [] := List.cons_ne_nil _ _
  have hresolved : (run (bare ⟨[idDeclaration, flagsDeclaration].map text, none, none⟩)
      (List.replicate 96 1)).isResolved = true := by decide +kernel
  have hagree := @run_of_ranges (List.replicate 96 1) _ _ hne
    (bare ⟨[idDeclaration, flagsDeclaration].map text, none, none⟩)
    (bare ⟨[], some (ranges 0 0 [idDeclaration, flagsDeclaration]), none⟩) none [] rfl rfl rfl
    hresolved
  exact ⟨hne, hresolved, hagree⟩

end RollupInput.Decoding
