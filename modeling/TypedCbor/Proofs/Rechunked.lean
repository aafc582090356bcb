import TypedCbor.Proofs.Item.Joined
import TypedCbor.Proofs.Taking.Typed

namespace TypedCbor

def Major.IsString (major : Major) : Prop := major = .bytes ∨ major = .text

instance (major : Major) : Decidable major.IsString := inferInstanceAs (Decidable (_ ∨ _))

structure StringForm.Agrees (form other : StringForm) : Prop where
  fits : ∀ chunk ∈ form.chunks, chunk.head.Fits
  fits' : ∀ chunk ∈ other.chunks, chunk.head.Fits
  content : form.content = other.content

-- Inputs with the same heads in them, but for the strings, which have the same content.
inductive Recut : Bytes → Bytes → Prop where
  | nil : Recut [] []
  | head {major : Major} {head? : Option Head} {rest rest' : Bytes} (plain : ¬ major.IsString)
      (fits : ∀ head ∈ head?, head.Fits) (opens : head? = none → major.hasIndefinite = true)
      (more : Recut rest rest') : Recut (openingBytes major head? ++ rest) (openingBytes major head? ++ rest')
  | string {major : Major} {form other : StringForm} {rest rest' : Bytes} (string : major.IsString)
      (agrees : form.Agrees other) (more : Recut rest rest') :
      Recut (openingBytes major form.head? ++ (form.body major ++ rest))
        (openingBytes major other.head? ++ (other.body major ++ rest'))

namespace StringForm

theorem Agrees.symm {form other : StringForm} (agrees : form.Agrees other) : other.Agrees form :=
  ⟨agrees.fits', agrees.fits, agrees.content.symm⟩

theorem fits_head {form : StringForm} (fits : ∀ chunk ∈ form.chunks, chunk.head.Fits) :
    ∀ head ∈ form.head?, head.Fits := by
  intro head member
  cases form with
  | whole chunk =>
    cases member
    exact fits chunk (List.mem_singleton_self chunk)
  | chunked => cases member

end StringForm

theorem Major.IsString.opens {major : Major} (string : major.IsString) {head? : Option Head} :
    head? = none → major.hasIndefinite = true := by
  rcases string with rfl | rfl <;> exact fun _ => rfl

namespace Recut

theorem symm {input input' : Bytes} (recut : Recut input input') : Recut input' input := by
  induction recut with
  | nil => exact .nil
  | head plain fits opens _ ih => exact .head plain fits opens ih
  | string string agrees _ ih => exact .string string agrees.symm ih

theorem of_opening {major : Major} {head? : Option Head} {rest input' : Bytes} (fits : ∀ head ∈ head?, head.Fits)
    (opens : head? = none → major.hasIndefinite = true) (recut : Recut (openingBytes major head? ++ rest) input') :
    (¬ major.IsString ∧ ∃ rest', input' = openingBytes major head? ++ rest' ∧ Recut rest rest') ∨
    (major.IsString ∧ ∃ form other behind behind', StringForm.Agrees form other ∧ Recut behind behind' ∧
      head? = form.head? ∧ rest = form.body major ++ behind ∧
      input' = openingBytes major other.head? ++ (other.body major ++ behind')) := by
  generalize begins : openingBytes major head? ++ rest = input at recut
  cases recut with
  | nil =>
    rw [openingBytes_eq_cons] at begins
    cases begins
  | head plain fits' opens' recut =>
    obtain ⟨rfl, rfl, rfl⟩ := Opening.eq_of_openingBytes fits fits' opens opens' begins
    exact .inl ⟨plain, _, rfl, recut⟩
  | string string agrees recut =>
    obtain ⟨rfl, rfl, rfl⟩ :=
      Opening.eq_of_openingBytes fits (StringForm.fits_head agrees.fits) opens string.opens begins
    exact .inr ⟨string, _, _, _, _, agrees, recut, rfl, rfl, rfl⟩

theorem begins {byte : UInt8} {more input' : Bytes} (recut : Recut (byte :: more) input') :
    ∃ byte' more', input' = byte' :: more' ∧ Major.ofInitial byte' = Major.ofInitial byte ∧
      (¬ (Major.ofInitial byte).IsString → byte' = byte) := by
  generalize split : byte :: more = input at recut
  cases recut with
  | nil => cases split
  | head _ fits _ recut =>
    rw [openingBytes_eq_cons, List.cons_append] at split ⊢
    cases split
    exact ⟨_, _, rfl, rfl, fun _ => rfl⟩
  | @string major form other _ _ string agrees recut =>
    rw [openingBytes_eq_cons, List.cons_append] at split
    cases split
    have known : Major.ofInitial (openingHeader major form.head?).initial = major :=
      openingHeader_major major (StringForm.fits_head agrees.fits)
    have known' : Major.ofInitial (openingHeader major other.head?).initial = major :=
      openingHeader_major major (StringForm.fits_head agrees.fits')
    rw [known]
    exact ⟨_, _, by rw [openingBytes_eq_cons, List.cons_append], known', absurd string⟩

theorem tags {tags : List Head} (fit : ∀ tag ∈ tags, tag.Fits) {rest rest' : Bytes} (recut : Recut rest rest') :
    Recut (tagBytes tags ++ rest) (tagBytes tags ++ rest') := by
  induction tags with
  | nil => exact recut
  | cons tag tags ih =>
    obtain ⟨here, others⟩ := List.forall_mem_cons.mp fit
    rw [tagBytes_cons, List.append_assoc, List.append_assoc]
    exact @head .tag (some tag) _ _ (by decide) (by simpa using here) nofun (ih others)

theorem of_tags {tags : List Head} (fit : ∀ tag ∈ tags, tag.Fits) {rest input' : Bytes}
    (recut : Recut (tagBytes tags ++ rest) input') :
    ∃ rest', input' = tagBytes tags ++ rest' ∧ Recut rest rest' := by
  induction tags generalizing input' with
  | nil => exact ⟨input', rfl, recut⟩
  | cons tag tags ih =>
    obtain ⟨here, others⟩ := List.forall_mem_cons.mp fit
    have fits : ∀ head ∈ some tag, head.Fits := by simpa using here
    rw [tagBytes_cons, List.append_assoc] at recut
    rcases @of_opening .tag (some tag) _ _ fits nofun recut with ⟨-, inside, rfl, inner⟩ | ⟨string, -⟩
    · obtain ⟨rest', rfl, behind⟩ := ih others inner
      exact ⟨rest', by rw [tagBytes_cons, List.append_assoc]; rfl, behind⟩
    · exact absurd string (by decide)

theorem closing {framing : Framing} {rest rest' : Bytes} (recut : Recut rest rest') :
    Recut (framing.closing ++ rest) (framing.closing ++ rest') := by
  cases framing with
  | counted => exact recut
  | delimited => exact @head .simple none _ _ (by decide) nofun (fun _ => rfl) recut

theorem items {items others : List Item} {rest rest' : Bytes}
    (each : ∀ item ∈ items, ∀ other, item.WellFormed → other.WellFormed → item.Rechunked other →
      ∀ rest rest', Recut rest rest' → Recut (item.bytes ++ rest) (other.bytes ++ rest'))
    (wellFormed : ∀ item ∈ items, item.WellFormed) (wellFormed' : ∀ other ∈ others, other.WellFormed)
    (same : itemsJoined items = itemsJoined others) (recut : Recut rest rest') :
    Recut (itemsBytes items ++ rest) (itemsBytes others ++ rest') := by
  induction items generalizing others with
  | nil =>
    cases others with
    | nil => exact recut
    | cons => cases same
  | cons item items ih =>
    cases others with
    | nil => cases same
    | cons other others =>
      obtain ⟨first, remaining⟩ := List.cons.inj same
      obtain ⟨here, each⟩ := List.forall_mem_cons.mp each
      obtain ⟨formed, wellFormed⟩ := List.forall_mem_cons.mp wellFormed
      obtain ⟨formed', wellFormed'⟩ := List.forall_mem_cons.mp wellFormed'
      rw [itemsBytes, itemsBytes, List.append_assoc, List.append_assoc]
      exact here other formed formed' first _ _ (ih each wellFormed wellFormed' remaining)

theorem form_of_bytes {tags : List Head} {body : Body Item} (formed : (Item.mk tags body).Formed)
    (kind : body.major = .bytes) :
    ∃ form : StringForm, (∀ chunk ∈ form.chunks, chunk.head.Fits) ∧ bodyJoined body = .bytes form.joined ∧
      bodyBytes body = openingBytes .bytes form.head? ++ form.body .bytes := by
  cases body with
  | bytes form => exact ⟨form, formed.chunks, rfl, rfl⟩
  | embedded width item =>
    refine ⟨.whole ⟨width, item.bytes⟩, fun chunk member => ?_, ?_, rfl⟩
    · rw [List.mem_singleton.mp member]
      exact formed.head _ rfl
    · rw [StringForm.joined, StringForm.content_whole]
      rfl
  | _ => cases kind

theorem item {item other : Item} (wellFormed : item.WellFormed) (wellFormed' : other.WellFormed)
    (rechunked : item.Rechunked other) {rest rest' : Bytes} (recut : Recut rest rest') :
    Recut (item.bytes ++ rest) (other.bytes ++ rest') := by
  induction item using Item.induction generalizing other rest rest' with
  | step tags body each =>
    rcases other with ⟨tags', body'⟩
    obtain ⟨rfl, same⟩ := Item.mk.inj rechunked
    have formed := wellFormed.formed
    have formed' := wellFormed'.formed
    rw [Item.bytes, Item.bytes, List.append_assoc, List.append_assoc]
    refine .tags formed.tags ?_
    have kind : body'.major = body.major := by rw [← major_joined, ← major_joined body, same]
    have children (child : Item) (member : child ∈ body.children) := wellFormed.child member
    have children' (child : Item) (member : child ∈ body'.children) := wellFormed'.child member
    cases body with
    | unsigned | negative | simple =>
      cases body' <;> cases kind
      cases same
      exact .head (by decide) formed.head (absurd · (Option.some_ne_none _)) recut
    | bytes | embedded =>
      obtain ⟨form, fits, joined, spelled⟩ := form_of_bytes formed rfl
      obtain ⟨form', fits', joined', spelled'⟩ := form_of_bytes formed' kind
      have content := StringForm.content_eq_of_joined (Body.bytes.inj (joined.symm.trans (same.trans joined')))
      rw [spelled, spelled', List.append_assoc, List.append_assoc]
      exact .string (.inl rfl) ⟨fits, fits', content⟩ recut
    | text form =>
      cases body' <;> cases kind
      have content := StringForm.content_eq_of_joined (Body.text.inj same)
      rw [bodyBytes, bodyBytes, List.append_assoc, List.append_assoc]
      exact .string (.inr rfl) ⟨formed.chunks, formed'.chunks, content⟩ recut
    | array framing items =>
      cases body' <;> cases kind
      obtain ⟨rfl, parts⟩ := Body.array.inj same
      have count := congrArg List.length parts
      rw [length_itemsJoined, length_itemsJoined] at count
      have inside := Recut.items (fun item member other w w' same rest rest' => each item member w w' same)
        children children' parts (@Recut.closing framing _ _ recut)
      rw [bodyBytes, bodyBytes, count]
      simp only [List.append_assoc]
      exact .head (by decide) formed'.head (fun _ => rfl) inside
    | map framing entries =>
      cases body' <;> cases kind
      obtain ⟨rfl, parts⟩ := Body.map.inj same
      have count := congrArg List.length parts
      rw [length_entriesJoined, length_entriesJoined] at count
      have flat := congrArg flattened parts
      rw [flattened_joined, flattened_joined] at flat
      have inside := Recut.items (fun item member other w w' same rest rest' => each item member w w' same)
        children children' flat (@Recut.closing framing _ _ recut)
      rw [bodyBytes, bodyBytes, count, entriesBytes_eq, entriesBytes_eq]
      simp only [List.append_assoc]
      exact .head (by decide) formed'.head (fun _ => rfl) inside

end Recut

-- A reader that gives the same answer wherever the strings of its input are cut.
def Seamless (read : DecodeM α) : Prop :=
  ∀ decoder rest', Recut decoder.rest rest' → ∀ a after, outcome read decoder = .ok (a, after) →
    ∃ behind, outcome read (decoder.before rest') = .ok (a, after.before behind) ∧ Recut after.rest behind

open Decoder

section
variable {α β : Type} {read : DecodeM α}

theorem seamless_pure (a : α) : Seamless (pure a : DecodeM α) := by
  intro decoder rest' recut b after found
  cases found
  exact ⟨rest', rfl, recut⟩

theorem seamless_throw (e : Error) : Seamless (throw e : DecodeM α) := by
  intro decoder rest' recut b after found
  cases found

theorem Seamless.bind (first : Seamless read) {next : α → DecodeM β} (second : ∀ a, Seamless (next a)) :
    Seamless (read >>= next) := by
  intro decoder rest' recut b after found
  obtain ⟨⟨a, between⟩, here, there⟩ := bind_eq_ok.mp (outcome_bind .. ▸ found)
  obtain ⟨inside, here', recut⟩ := first decoder rest' recut a between here
  obtain ⟨behind, there', recut⟩ := second a between inside recut b after there
  exact ⟨behind, by rw [outcome_bind, here', ok_bind, there'], recut⟩

theorem Seamless.map (first : Seamless read) (f : α → β) : Seamless (f <$> read) := by
  intro decoder rest' recut b after found
  obtain ⟨⟨a, between⟩, here, same⟩ := map_eq_ok.mp (outcome_map .. ▸ found)
  cases same
  obtain ⟨behind, here', recut⟩ := first decoder rest' recut a between here
  exact ⟨behind, by rw [outcome_map, here', ok_map], recut⟩

theorem Seamless.ite {c : Prop} [Decidable c] {no : DecodeM α} (yes : Seamless read) (other : Seamless no) :
    Seamless (if c then read else no) := by
  split
  · exact yes
  · exact other

theorem seamless_ofExcept (result : Except Error α) : Seamless (Decoder.ofExcept result) := by
  cases result with
  | ok a => exact seamless_pure a
  | error e => exact seamless_throw e

theorem Seamless.of_eq {read' : DecodeM α} (seamless : Seamless read')
    (same : ∀ decoder, outcome read decoder = outcome read' decoder) : Seamless read := by
  intro decoder rest' recut a after found
  rw [same] at found ⊢
  exact seamless decoder rest' recut a after found

theorem seamless_cursor {read : ReadM α}
    (law : ∀ input input' a rest, Recut input input' → outcome read input = .ok (a, rest) →
      ∃ rest', outcome read input' = .ok (a, rest') ∧ Recut rest rest') : Seamless (cursor read) := by
  intro decoder input' recut a after found
  obtain ⟨rest, here, rfl⟩ := rest_of_cursor found
  obtain ⟨rest', here', recut⟩ := law _ _ _ _ recut here
  exact ⟨rest', by rw [outcome_cursor, rest_before, here']; rfl, recut⟩

theorem seamless_modify {f : Decoder → Decoder}
    (keeps : ∀ decoder rest, f (decoder.before rest) = (f decoder).before rest) :
    Seamless (modify f : DecodeM PUnit) := by
  intro decoder rest' recut a after found
  cases found
  have same : (f decoder).rest = ((f decoder).before decoder.rest).rest :=
    congrArg Decoder.rest (keeps decoder decoder.rest)
  exact ⟨rest', by rw [outcome_modify, keeps], by rwa [same]⟩

theorem seamless_ofField {next : Option Element → DecodeM α} (second : ∀ field, Seamless (next field)) :
    Seamless (do next (← get).field) :=
  fun decoder => second decoder.field decoder

theorem seamless_rounds (rounds : Nat → Nat) {loop : Nat → DecodeM α} (law : ∀ count, Seamless (loop count))
    (enough : ∀ count decoder, rounds decoder.rest.length ≤ count →
      outcome (loop count) decoder = outcome (loop (rounds decoder.rest.length)) decoder) :
    Seamless (do loop (rounds (← get).rest.length)) := by
  intro decoder rest' recut a after found
  have spare := enough _ decoder (Nat.le_max_left _ (rounds rest'.length))
  have spare' := enough _ (decoder.before rest') (Nat.le_max_right (rounds decoder.rest.length) _)
  obtain ⟨behind, ran, recut⟩ := law _ decoder rest' recut a after (spare.trans found)
  exact ⟨behind, spare'.symm.trans ran, recut⟩

def SeamlessBehind (next : Header → DecodeM α) (major : Major) : Prop :=
  ∀ (form other : StringForm) (rest rest' : Bytes), form.Agrees other → Recut rest rest' →
    ∀ (decoder : Decoder) (a : α) (after : Decoder),
    outcome (next (openingHeader major form.head?)) (decoder.before (form.body major ++ rest)) = .ok (a, after) →
      ∃ behind, outcome (next (openingHeader major other.head?)) (decoder.before (other.body major ++ rest')) =
        .ok (a, after.before behind) ∧ Recut after.rest behind

theorem seamless_readHeader {next : Header → DecodeM α}
    (plain : ∀ header, ¬ header.major.IsString → Seamless (next header))
    (strings : ∀ major, major.IsString → SeamlessBehind next major) :
    Seamless (cursor Cursor.readHeader >>= next) := by
  intro decoder input' recut a after found
  obtain ⟨⟨header, _⟩, read, goes⟩ := bind_eq_ok.mp (outcome_bind .. ▸ found)
  obtain ⟨rest, headed, rfl⟩ := rest_of_cursor read
  obtain ⟨head?, fits, opens, same, spelled⟩ := Cursor.opening_of_readHeader headed
  generalize known : header.major = major at same spelled opens
  subst same
  rw [spelled] at recut
  rcases recut.of_opening fits opens with
    ⟨other, rest', rfl, inner⟩ | ⟨string, form, other, inside, inside', agrees, inner, rfl, rfl, rfl⟩
  · have seamless := plain (openingHeader major head?) (by rwa [known])
    obtain ⟨behind, goes', recut⟩ := seamless _ rest' inner a after goes
    refine ⟨behind, ?_, recut⟩
    rw [outcome_bind, outcome_cursor, rest_before, Cursor.outcome_readHeader fits opens]
    exact goes'
  · obtain ⟨behind, goes', recut⟩ := strings major string form other inside inside' agrees inner decoder a after goes
    refine ⟨behind, ?_, recut⟩
    rw [outcome_bind, outcome_cursor, rest_before,
      Cursor.outcome_readHeader (StringForm.fits_head agrees.fits') string.opens]
    exact goes'

theorem seamlessBehind_of_refused {next : Header → DecodeM α} {major : Major}
    (refused : ∀ header, header.major = major → ∀ decoder a after, outcome (next header) decoder ≠ .ok (a, after)) :
    SeamlessBehind next major := by
  intro form other rest rest' agrees recut decoder a after found
  exact absurd found (refused _ (openingHeader_major major (StringForm.fits_head agrees.fits)) _ _ _)

theorem seamlessBehind_of_payload {next : Header → DecodeM α} {major : Major} (string : major.IsString)
    {going : Bytes → DecodeM α} (seamless : ∀ content, Seamless (going content))
    (same : ∀ header, header.major = major →
      next header = cursor (Cursor.readPayload header) >>= fun payload => going payload.bytes) :
    SeamlessBehind next major := by
  intro form other rest rest' agrees recut decoder a after found
  have taken := Cursor.outcome_readPayload agrees.fits string.opens rest
  have taken' := Cursor.outcome_readPayload agrees.fits' string.opens rest'
  rw [same _ (openingHeader_major major (StringForm.fits_head agrees.fits)), outcome_bind, outcome_cursor,
    rest_before, taken] at found
  obtain ⟨behind, goes, recut⟩ := seamless form.content (decoder.before rest) rest' recut a after found
  refine ⟨behind, ?_, recut⟩
  rw [same _ (openingHeader_major major (StringForm.fits_head agrees.fits')), outcome_bind, outcome_cursor,
    rest_before, taken', ok_map, ok_bind, ← agrees.content]
  exact goes

end
end TypedCbor
