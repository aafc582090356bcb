import Mathlib.Data.List.Induction
import TypedCbor.Proofs.Item.Opening

namespace TypedCbor

theorem Bytes.ofBigEndian_lt (bytes : Bytes) : ofBigEndian bytes < 256 ^ bytes.length := by
  induction bytes using List.reverseRecOn with
  | nil => decide
  | append_singleton bytes byte ih =>
    have small := byte.toNat_lt
    rw [ofBigEndian_concat, List.length_append, List.length_singleton, Nat.pow_succ]
    omega

theorem Bytes.bigEndian_ofBigEndian (bytes : Bytes) :
    bigEndian bytes.length (ofBigEndian bytes) = bytes := by
  induction bytes using List.reverseRecOn with
  | nil => rfl
  | append_singleton bytes byte ih =>
    have small := byte.toNat_lt
    have above : (256 * ofBigEndian bytes + byte.toNat) / 256 = ofBigEndian bytes := by omega
    have last : UInt8.ofNat (256 * ofBigEndian bytes + byte.toNat) = byte := by
      apply UInt8.toNat_inj.mp
      rw [UInt8.toNat_ofNat']
      omega
    rw [ofBigEndian_concat, List.length_append, List.length_singleton, bigEndian, above, ih, last]

theorem Major.code_ofCode : ∀ n < 8, (ofCode n).code = n := by
  decide

theorem Major.initial_ofInitial (byte : UInt8) :
    (ofInitial byte).initial (byte.toNat % 32) = byte := by
  have small := byte.toNat_lt
  have code : (ofInitial byte).code = byte.toNat / 32 := Major.code_ofCode _ (by omega)
  apply UInt8.toNat_inj.mp
  rw [initial, UInt8.toNat_ofNat', code]
  omega

namespace Cursor

theorem eq_of_take {count : Nat} {input taken rest : Bytes}
    (found : outcome (take count) input = .ok (taken, rest)) :
    taken.length = count ∧ input = taken ++ rest := by
  by_cases short : input.length < count
  · simp [outcome, take, short] at found
  · simp only [outcome, take, short, if_false, Except.ok.injEq, Prod.mk.injEq] at found
    rcases found with ⟨rfl, rfl⟩
    exact ⟨by rw [List.length_take]; omega, (List.take_append_drop count input).symm⟩

theorem eq_of_word {width : Nat} {input rest : Bytes} {argument : Argument}
    (found : outcome (word width) input = .ok (argument, rest)) :
    ∃ n < 256 ^ width, argument = .value (UInt64.ofNat n) ∧
      input = Bytes.bigEndian width n ++ rest := by
  simp only [word, outcome_bind] at found
  obtain ⟨⟨taken, after⟩, read, same⟩ := bind_eq_ok.mp found
  obtain ⟨rfl, rfl⟩ := eq_of_take read
  cases same
  exact ⟨_, Bytes.ofBigEndian_lt taken, rfl, by rw [Bytes.bigEndian_ofBigEndian]⟩

theorem eq_of_readByte {input rest : Bytes} {byte : UInt8}
    (found : outcome readByte input = .ok (byte, rest)) : input = byte :: rest := by
  cases input <;> cases found
  rfl

theorem eq_of_peek {input rest : Bytes} {byte : UInt8} (found : outcome peek input = .ok (byte, rest)) :
    rest = input ∧ ∃ more, input = byte :: more := by
  cases input with
  | nil => cases found
  | cons first more =>
    cases found
    exact ⟨rfl, more, rfl⟩

theorem eq_of_peekMajor {input rest : Bytes} {major : Major} (found : outcome peekMajor input = .ok (major, rest)) :
    rest = input := by
  obtain ⟨⟨byte, _⟩, looked, found⟩ := bind_eq_ok.mp (outcome_bind .. ▸ found)
  cases found
  exact (eq_of_peek looked).1

theorem eq_of_tryBreak {input rest : Bytes} (found : outcome tryBreak input = .ok (true, rest)) :
    input = Wire.closing ++ rest := by
  cases input with
  | nil => cases found
  | cons byte input =>
    by_cases closes : byte = breakByte
    · simp only [outcome, tryBreak, closes, if_true, Except.ok.injEq, Prod.mk.injEq, true_and] at found
      rw [closes, found]
      rfl
    · simp [outcome, tryBreak, closes] at found

theorem eq_of_tryBreak_false {input rest : Bytes} (found : outcome tryBreak input = .ok (false, rest)) :
    input = rest := by
  cases input with
  | nil => cases found
  | cons byte input =>
    by_cases closes : byte = breakByte
    · simp [outcome, tryBreak, closes] at found
    · simpa [outcome, tryBreak, closes] using found

theorem head_of_word {width : Width} {info : Nat} {input rest : Bytes}
    {argument : Argument} (announces : ∀ n, width.info n = info)
    (limit : width.limit = 256 ^ width.size)
    (found : outcome (word width.size) input = .ok (argument, rest)) :
    ∃ head : Head, head.Fits ∧ head.width.info head.n = info ∧ argument = .value head.number ∧
      input = Bytes.bigEndian head.width.size head.n ++ rest := by
  obtain ⟨n, fits, same, spelled⟩ := eq_of_word found
  exact ⟨⟨width, n⟩, by rw [Head.Fits, limit]; exact fits, announces n, same, spelled⟩

theorem head_of_readArgument {initial : UInt8} {input rest : Bytes} {argument : Argument}
    (found : outcome (readArgument initial) input = .ok (argument, rest)) :
    (∃ head : Head, head.Fits ∧ head.width.info head.n = initial.toNat % 32 ∧
      argument = .value head.number ∧ input = Bytes.bigEndian head.width.size head.n ++ rest) ∨
    (initial.toNat % 32 = indefiniteInfo ∧ (Major.ofInitial initial).hasIndefinite = true ∧
      argument = .indefinite ∧ input = rest) := by
  unfold readArgument at found
  dsimp only at found
  by_cases small : initial.toNat % 32 < 24
  · rw [if_pos small] at found
    cases found
    exact .inl ⟨⟨.immediate, initial.toNat % 32⟩, small, rfl, rfl, rfl⟩
  · rw [if_neg small] at found
    split at found
    case h_1 info =>
      rw [info]
      exact .inl (@head_of_word .one _ _ _ _ (fun _ => rfl) rfl found)
    case h_2 info =>
      rw [info]
      exact .inl (@head_of_word .two _ _ _ _ (fun _ => rfl) rfl found)
    case h_3 info =>
      rw [info]
      exact .inl (@head_of_word .four _ _ _ _ (fun _ => rfl) rfl found)
    case h_4 info =>
      rw [info]
      exact .inl (@head_of_word .eight _ _ _ _ (fun _ => rfl) rfl found)
    case h_5 info =>
      split at found
      · rename_i opens
        cases found
        exact .inr ⟨info, opens, rfl, rfl⟩
      · cases found
    case h_6 => cases found

theorem opening_of_readHeader {input rest : Bytes} {header : Header}
    (found : outcome readHeader input = .ok (header, rest)) :
    ∃ head? : Option Head, (∀ head ∈ head?, head.Fits) ∧
      (head? = none → header.major.hasIndefinite = true) ∧
      header = openingHeader header.major head? ∧ input = openingBytes header.major head? ++ rest := by
  obtain ⟨⟨initial, after⟩, first, found⟩ := bind_eq_ok.mp (outcome_bind .. ▸ found)
  obtain ⟨⟨argument, after'⟩, second, same⟩ := bind_eq_ok.mp (outcome_bind .. ▸ found)
  cases same
  have spelled := Major.initial_ofInitial initial
  rcases head_of_readArgument second with ⟨head, fits, info, rfl, rfl⟩ | ⟨info, opens, rfl, rfl⟩
  · rw [← info] at spelled
    refine ⟨some head, by simpa using fits, by simp, ?_, ?_⟩
    · rw [Header.major, openingHeader, Head.header, spelled]
    · rw [eq_of_readByte first, Header.major, openingBytes, Head.bytes, spelled]
      rfl
  · rw [info] at spelled
    refine ⟨none, by simp, fun _ => opens, ?_, ?_⟩
    · rw [Header.major, openingHeader, spelled]
    · rw [eq_of_readByte first, Header.major, openingBytes, spelled]
      rfl

theorem tags_of_tagRounds {rounds : Nat} {input rest : Bytes} {numbers : List UInt64}
    (found : outcome (tagRounds rounds) input = .ok (numbers, rest)) :
    ∃ tags : List Head, (∀ tag ∈ tags, tag.Fits) ∧ numbers = tags.map Head.number ∧
      input = tagBytes tags ++ rest ∧ ∃ byte more, rest = byte :: more ∧ Major.ofInitial byte ≠ .tag := by
  induction rounds generalizing input numbers with
  | zero => cases found
  | succ rounds ih =>
    rw [tagRounds, outcome_bind] at found
    cases input with
    | nil => cases found
    | cons byte input =>
      rw [outcome_peekMajor, ok_bind, outcome_ite] at found
      split at found
      · rename_i tag
        dsimp only at tag found
        obtain ⟨⟨header, after⟩, first, found⟩ := bind_eq_ok.mp (outcome_bind .. ▸ found)
        obtain ⟨head?, fits, opens, same, spelled⟩ := opening_of_readHeader first
        have known : header.major = .tag := by
          rw [openingBytes_eq_cons, ← same] at spelled
          rw [Header.major, ← (List.cons.inj spelled).1, tag]
        rw [known] at opens same spelled
        cases head? with
        | none => cases opens rfl
        | some head =>
          rw [same, openingHeader] at found
          obtain ⟨⟨numbers, after'⟩, others, done⟩ := bind_eq_ok.mp (outcome_bind .. ▸ found)
          cases done
          obtain ⟨tags, allFit, rfl, rfl, stops⟩ := ih others
          refine ⟨head :: tags, List.forall_mem_cons.mpr ⟨fits head rfl, allFit⟩, rfl, ?_, stops⟩
          rw [spelled, tagBytes, tagBytes, List.flatMap_cons, List.append_assoc]
          rfl
      · rename_i other
        cases found
        exact ⟨[], by simp, rfl, rfl, byte, input, rfl, other⟩

theorem tags_of_readTags {input rest : Bytes} {numbers : List UInt64}
    (found : outcome readTags input = .ok (numbers, rest)) :
    ∃ tags : List Head, (∀ tag ∈ tags, tag.Fits) ∧ numbers = tags.map Head.number ∧
      input = tagBytes tags ++ rest ∧ ∃ byte more, rest = byte :: more ∧ Major.ofInitial byte ≠ .tag := by
  simp only [readTags, outcome_bind, outcome_get, ok_bind] at found
  exact tags_of_tagRounds found

theorem chunks_of_chunkRounds {major : Major} {rounds : Nat} {input rest content : Bytes}
    (found : outcome (chunkRounds major rounds) input = .ok (content, rest)) :
    ∃ chunks : List Chunk, (∀ chunk ∈ chunks, chunk.head.Fits) ∧
      content = chunks.flatMap Chunk.content ∧
      input = chunks.flatMap (Chunk.bytes major) ++ (Wire.closing ++ rest) := by
  induction rounds generalizing input content with
  | zero => cases found
  | succ rounds ih =>
    rw [chunkRounds] at found
    obtain ⟨⟨header, after⟩, first, found⟩ := bind_eq_ok.mp (outcome_bind .. ▸ found)
    obtain ⟨head?, fits, opens, same, spelled⟩ := opening_of_readHeader first
    dsimp only at found
    rw [outcome_ite] at found
    split at found
    · rename_i closes
      cases found
      refine ⟨[], by simp, rfl, ?_⟩
      have initial : header.initial = breakByte := by simpa [Header.isBreak] using closes
      cases head? with
      | none =>
        rw [openingBytes_eq_cons, ← same, initial] at spelled
        exact spelled
      | some head =>
        exact absurd (same ▸ initial) (openingHeader_ne_break header.major fits fun _ => rfl)
    · cases head? with
      | none =>
        rw [same] at found
        cases found
      | some head =>
        have argument : header.argument = .value head.number := by rw [same]; rfl
        rw [argument] at found
        dsimp only at found
        rw [outcome_ite] at found
        split at found
        · rename_i known
          obtain ⟨⟨content, after'⟩, taken, found⟩ := bind_eq_ok.mp (outcome_bind .. ▸ found)
          obtain ⟨⟨others, after''⟩, more, done⟩ := bind_eq_ok.mp (outcome_bind .. ▸ found)
          cases done
          obtain ⟨length, rfl⟩ := eq_of_take taken
          obtain ⟨chunks, allFit, rfl, rfl⟩ := ih more
          have here : (Chunk.mk head.width content).head = head := by
            rw [Chunk.head, length, (fits head rfl).toNat_number]
          refine ⟨⟨head.width, content⟩ :: chunks,
            List.forall_mem_cons.mpr ⟨by rw [here]; exact fits head rfl, allFit⟩, rfl, ?_⟩
          rw [spelled, known, List.flatMap_cons, Chunk.bytes, here, List.append_assoc, List.append_assoc]
          rfl
        · cases found

theorem form_of_readPayload {major : Major} {head? : Option Head} {input rest : Bytes}
    {payload : Payload} (fits : ∀ head ∈ head?, head.Fits) (known : (openingHeader major head?).major = major)
    (found : outcome (readPayload (openingHeader major head?)) input = .ok (payload, rest)) :
    ∃ form : StringForm, form.head? = head? ∧ (∀ chunk ∈ form.chunks, chunk.head.Fits) ∧
      input = form.body major ++ rest := by
  cases head? with
  | some head =>
    obtain ⟨⟨content, after⟩, taken, done⟩ := bind_eq_ok.mp (outcome_bind .. ▸ found)
    cases done
    obtain ⟨length, rfl⟩ := eq_of_take taken
    have here : (Chunk.mk head.width content).head = head := by
      rw [Chunk.head, length, (fits head rfl).toNat_number]
    refine ⟨.whole ⟨head.width, content⟩, congrArg some here, ?_, rfl⟩
    simpa [StringForm.chunks, here] using fits
  | none =>
    simp only [readPayload, openingHeader, outcome_bind, outcome_get, ok_bind] at found known
    rw [known] at found
    obtain ⟨⟨content, after⟩, read, done⟩ := bind_eq_ok.mp found
    cases done
    obtain ⟨chunks, allFit, rfl, rfl⟩ := chunks_of_chunkRounds read
    exact ⟨.chunked chunks, rfl, allFit, by simp [StringForm.body]⟩

end Cursor
end TypedCbor
