import AttowNexus.Model.Auth
import AttowNexus.Proofs.Utf8

/-! # Both servers accept one header

The accumulated differences of two byte strings are zero exactly when the strings are equal. The two
validators read the first header value by the same steps, so each of them accepts a value exactly when it
spells the marker and the configured token.
-/

namespace AttowNexus

/-- The accumulator stays zero exactly on pairs of equal bytes. -/
theorem foldl_differences_eq_zero_iff {pairs : List (UInt8 × UInt8)} {acc : UInt8} :
    pairs.foldl (fun acc pair => acc ||| (pair.1 ^^^ pair.2)) acc = 0 ↔
      acc = 0 ∧ ∀ pair ∈ pairs, pair.1 = pair.2 := by
  induction pairs generalizing acc with
  | nil => simp
  | cons pair rest ih =>
    rw [List.foldl_cons, ih, UInt8.or_eq_zero_iff, UInt8.xor_eq_zero_iff, List.forall_mem_cons, and_assoc]

/-- Two strings of one length are equal when their bytes are, pair by pair. -/
theorem forall_mem_zip_eq_iff {a b : Bytes} (same : a.length = b.length) :
    (∀ pair ∈ a.zip b, pair.1 = pair.2) ↔ a = b := by
  induction a generalizing b with
  | nil =>
    cases b with
    | nil => simp
    | cons right rest => simp at same
  | cons left above ih =>
    cases b with
    | nil => simp at same
    | cons right below =>
      have shorter : above.length = below.length := by simpa using same
      rw [List.zip_cons_cons, List.forall_mem_cons, ih shorter, List.cons.injEq]

/-- The comparison is equality of byte strings, of any length. -/
theorem constantTimeEq_iff {a b : Bytes} : constantTimeEq a b = true ↔ a = b := by
  rw [constantTimeEq]
  split
  · next unequal =>
    have apart : a ≠ b := fun same => unequal (congrArg List.length same)
    simp [apart]
  · next equal =>
    have same : a.length = b.length := not_not.mp equal
    rw [decide_eq_true_iff, foldl_differences_eq_zero_iff, forall_mem_zip_eq_iff same]
    exact and_iff_right rfl

/-- Visible ASCII, a space or a tab is below the first byte of a longer character. -/
theorem toNat_lt_of_isVisibleAscii {byte : UInt8} (visible : isVisibleAscii byte = true) : byte.toNat < 0x80 := by
  simp only [isVisibleAscii, Bool.or_eq_true, Bool.and_eq_true, decide_eq_true_eq] at visible
  obtain ⟨_, high⟩ | rfl := visible
  · have bound : byte.toNat < (0x7F : UInt8).toNat := UInt8.lt_iff_toNat_lt.mp high
    have limit : (0x7F : UInt8).toNat = 127 := rfl
    omega
  · decide

theorem utf8EncodeChar_of_lt {c : Char} (small : c.toNat < 0x80) :
    String.utf8EncodeChar c = [UInt8.ofNat c.toNat] := by
  have single : c.utf8Size = 1 := Char.utf8Size_eq_one_iff.mpr (by
    rw [UInt32.le_iff_toNat_le]
    exact Nat.lt_succ_iff.mp small)
  rw [String.utf8EncodeChar_eq_singleton single]
  rfl

/-- Reading ASCII bytes as text and taking the bytes of the text changes nothing. -/
theorem utf8Bytes_asciiText {value : Bytes} (small : ∀ byte ∈ value, byte.toNat < 0x80) :
    utf8Bytes (asciiText value) = value := by
  rw [utf8Bytes, asciiText, String.toList_ofList]
  induction value with
  | nil => rfl
  | cons byte rest ih =>
    obtain ⟨here, later⟩ := List.forall_mem_cons.mp small
    have kept : ∀ n : Fin 0x80, (Char.ofNat n).toNat = n := by decide
    have own : (Char.ofNat byte.toNat).toNat = byte.toNat := kept ⟨byte.toNat, here⟩
    rw [List.map_cons, List.flatMap_cons, ih later, utf8EncodeChar_of_lt (own.trans_lt here), own, UInt8.ofNat_toNat]
    rfl

theorem utf8Bytes_append (left right : String) : utf8Bytes (left ++ right) = utf8Bytes left ++ utf8Bytes right := by
  rw [utf8Bytes, String.toList_append, List.flatMap_append, utf8Bytes, utf8Bytes]

/-- A text has a prefix exactly when it continues with the rest. -/
theorem stripPrefix_eq_some_iff {text lead rest : String} :
    stripPrefix text lead = some rest ↔ text = lead ++ rest := by
  rw [stripPrefix]
  constructor
  · intro stripped
    split_ifs at stripped with leads
    obtain ⟨tail, split⟩ := List.isPrefixOf_iff_prefix.mp leads
    have same : text.toList.drop lead.length = tail := by
      rw [← split, ← String.length_toList, List.drop_left]
    rw [same] at stripped
    obtain rfl := Option.some.inj stripped
    apply String.toList_inj.mp
    rw [String.toList_append, String.toList_ofList, split]
  · rintro rfl
    have leads : lead.toList.isPrefixOf (lead ++ rest).toList = true := by
      rw [String.toList_append]
      exact List.isPrefixOf_iff_prefix.mpr (List.prefix_append _ _)
    rw [if_pos leads, String.toList_append, ← String.length_toList, List.drop_left, String.ofList_toList]

/-- What both validators take out of a header value. -/
def bearer (value : Bytes) : Option String := (HeaderMap.toStr value).bind (stripPrefix · "Bearer ")

/-- The value holds this token: its bytes are text, the marker and then those of the token. -/
theorem bearer_eq_some_iff {value : Bytes} {actual : String} :
    bearer value = some actual ↔
      (∀ byte ∈ value, isVisibleAscii byte = true) ∧ value = utf8Bytes "Bearer " ++ utf8Bytes actual := by
  rw [bearer, HeaderMap.toStr]
  constructor
  · intro found
    split_ifs at found with visible
    · have each := List.all_eq_true.mp visible
      have spelled : asciiText value = "Bearer " ++ actual := stripPrefix_eq_some_iff.1 found
      have bytes := utf8Bytes_asciiText fun byte member => toNat_lt_of_isVisibleAscii (each byte member)
      exact ⟨each, by rw [← utf8Bytes_append, ← spelled, bytes]⟩
    · simp at found
  · rintro ⟨each, spelled⟩
    have bytes := utf8Bytes_asciiText fun byte member => toNat_lt_of_isVisibleAscii (each byte member)
    rw [if_pos (List.all_eq_true.mpr each), Option.bind_some, stripPrefix_eq_some_iff]
    apply utf8Bytes_injective
    rw [bytes, utf8Bytes_append, spelled]

section Validators

variable {config : AuthConfig} {token : String}

/-- The text of a header with a token: visible ASCII characters or spaces. -/
def IsHeaderText (text : String) : Prop := ∀ c ∈ text.toList, ' ' ≤ c ∧ c ≤ '~'

instance (text : String) : Decidable (IsHeaderText text) := inferInstanceAs (Decidable (∀ _ ∈ _, _))

/-- The bytes of such a text can be read back from a header. -/
theorem IsHeaderText.visible {text : String} (plain : IsHeaderText text) :
    ∀ byte ∈ utf8Bytes text, isVisibleAscii byte = true := by
  intro byte member
  obtain ⟨c, inside, encoded⟩ := List.mem_flatMap.mp member
  obtain ⟨low, high⟩ := plain c inside
  have least : 0x20 ≤ c.toNat := UInt32.le_iff_toNat_le.mp low
  have most : c.toNat ≤ 0x7E := UInt32.le_iff_toNat_le.mp high
  have each : ∀ n : Fin 0x7F, 0x20 ≤ n.val → isVisibleAscii (UInt8.ofNat n) = true := by decide
  rw [utf8EncodeChar_of_lt (by omega), List.mem_singleton] at encoded
  rw [encoded]
  exact each ⟨c.toNat, by omega⟩ least

/-- What the comparison with the configured token decides about a value. -/
theorem bearer_matches_iff (plain : IsHeaderText token) {value : Bytes} :
    (∃ actual, bearer value = some actual ∧ constantTimeEq (utf8Bytes actual) (utf8Bytes token) = true) ↔
      value = utf8Bytes "Bearer " ++ utf8Bytes token := by
  constructor
  · rintro ⟨actual, found, same⟩
    rw [(bearer_eq_some_iff.1 found).2, constantTimeEq_iff.1 same]
  · rintro rfl
    refine ⟨token, bearer_eq_some_iff.2 ⟨fun byte member => ?_, rfl⟩, constantTimeEq_iff.2 rfl⟩
    have marker : IsHeaderText "Bearer " := by decide
    obtain here | here := List.mem_append.mp member
    · exact marker.visible byte here
    · exact plain.visible byte here

/-- The HTTP validator compares what the value holds. -/
theorem validateHttp_ok_iff (secured : config.requireAuth = true) (configured : config.authToken = some token)
    {headers : HeaderMap} {value : Bytes} (header : headers.get "authorization" = some value) :
    validateHttp headers config = .ok () ↔
      ∃ actual, bearer value = some actual ∧ constantTimeEq (utf8Bytes actual) (utf8Bytes token) = true := by
  rw [validateHttp, if_neg (Bool.not_eq_false _ ▸ secured), configured, header, Option.bind_some,
    ← bearer]
  cases bearer value with
  | none => simp
  | some actual => simp

/-- The gRPC validator compares the same, and hands the request on. -/
theorem validateGrpc_ok_iff (secured : config.requireAuth = true) (configured : config.authToken = some token)
    {ρ : Type} {request passed : GrpcRequest ρ} {value : Bytes}
    (header : request.metadata.get "authorization" = some value) :
    validateGrpc request config = .ok passed ↔ passed = request ∧
      ∃ actual, bearer value = some actual ∧ constantTimeEq (utf8Bytes actual) (utf8Bytes token) = true := by
  rw [validateGrpc, if_neg (Bool.not_eq_false _ ▸ secured), configured, header, Option.bind_some,
    ← bearer]
  cases bearer value with
  | none => simp
  | some actual =>
    simp only [Option.some.injEq, exists_eq_left']
    split
    · next same => simp [same, eq_comm]
    · next differ => simp [differ]

/-- With a token of plain characters both validators accept a first header value exactly when it is the marker
and then the token, byte for byte. -/
theorem bearer_auth_exact (secured : config.requireAuth = true) (configured : config.authToken = some token)
    (plain : IsHeaderText token) {ρ : Type} (headers : HeaderMap) (request : GrpcRequest ρ) {value : Bytes}
    (header : headers.get "authorization" = some value)
    (metadata : request.metadata.get "authorization" = some value) :
    (validateHttp headers config = .ok () ↔ value = utf8Bytes "Bearer " ++ utf8Bytes token) ∧
      ((∃ passed, validateGrpc request config = .ok passed) ↔ value = utf8Bytes "Bearer " ++ utf8Bytes token) ∧
      (∀ passed, validateGrpc request config = .ok passed → passed = request) ∧
      ∀ a b, constantTimeEq a b = true ↔ a = b := by
  refine ⟨?_, ?_, fun passed accepted => ?_, fun a b => constantTimeEq_iff⟩
  · rw [validateHttp_ok_iff secured configured header, bearer_matches_iff plain]
  · rw [← bearer_matches_iff plain]
    constructor
    · rintro ⟨passed, accepted⟩
      exact ((validateGrpc_ok_iff secured configured metadata).1 accepted).2
    · intro same
      exact ⟨request, (validateGrpc_ok_iff secured configured metadata).2 ⟨rfl, same⟩⟩
  · exact ((validateGrpc_ok_iff secured configured metadata).1 accepted).1

private def tokenConfig : AuthConfig := { (default : Config) with requireAuth := true, authToken := some "audit-token" }

/-- The right token is let in, and one that continues it is not. -/
theorem bearer_auth_exact_audited :
    validateHttp [("authorization", utf8Bytes "Bearer audit-token")] tokenConfig = .ok () ∧
      ¬ ∃ passed, validateGrpc ⟨[("authorization", utf8Bytes "Bearer audit-token2")], ()⟩ tokenConfig =
        .ok passed := by
  have plain : IsHeaderText "audit-token" := by decide
  constructor
  · exact (bearer_auth_exact rfl rfl plain _ ⟨[("authorization", _)], ()⟩ rfl rfl).1.2 (by decide)
  · exact (bearer_auth_exact rfl rfl plain [("authorization", _)] _ rfl rfl).2.1.not.2 (by decide)

end Validators

end AttowNexus
