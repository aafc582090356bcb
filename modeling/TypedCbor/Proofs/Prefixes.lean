import TypedCbor.Document
import TypedCbor.Proofs.Taking.Typed

namespace TypedCbor

open Decoder

section
variable {read : DecodeM α} {input : Bytes}

theorem Decoder.whole_of_error {e : Error} (ran : outcome read { rest := input } = .error e) :
    whole read input = .error e := by
  rw [whole_eq, outcome_bind, ran]
  rfl

theorem Decoder.whole_of_rest {a : α} {after : Decoder}
    (ran : outcome read { rest := input } = .ok (a, after)) (more : after.rest ≠ []) :
    whole read input = .error (.trailingData after.rest.length) := by
  rw [whole_eq, outcome_bind, ran, ok_bind, outcome_bind]
  cases left : after.rest with
  | nil => exact absurd left more
  | cons byte rest => simp [finish, left]

variable {a : α} (takes : TakesAlone read read) (accepted : whole read input = .ok a)
include takes accepted

theorem TakesAlone.cut {part lost : Bytes} (split : input = part ++ lost) (short : lost ≠ []) :
    whole read part = .error .truncatedInput := by
  obtain ⟨after, ran, nothing⟩ := outcome_of_whole accepted
  obtain ⟨taken, all, law⟩ := takes _ a after ran
  rw [nothing, List.append_nil] at all
  rcases law.cut part lost (all.symm.trans split) with truncated | ⟨none, -⟩
  · exact whole_of_error truncated
  · exact absurd none short

theorem TakesAlone.extended {more : Bytes} (some : more ≠ []) :
    whole read (input ++ more) = .error (.trailingData more.length) := by
  obtain ⟨after, ran, nothing⟩ := outcome_of_whole accepted
  obtain ⟨taken, all, law⟩ := takes _ a after ran
  rw [nothing, List.append_nil] at all
  change input = taken at all
  subst all
  exact whole_of_rest (law.whole more False.elim) some

end

-- No accepted document is the beginning of another one, and each is told from its beginnings.
theorem Config.decode_prefix_free {config : Config} {type : Ty} {input : Bytes} {value : Value}
    (accepted : config.decode type input = .ok value) :
    (∀ part lost, lost ≠ [] → input = part ++ lost → config.decode type part = .error .truncatedInput) ∧
      ∀ more, more ≠ [] → config.decode type (input ++ more) = .error (.trailingData more.length) := by
  have takes := type.delimits.takes (.refl config)
  exact ⟨fun part lost short split => takes.cut accepted split short,
    fun more some => takes.extended accepted some⟩

def Ty.parcel : Ty := .record "Parcel" [⟨"content", .embedded .any, none⟩, ⟨"note", .option .bool, none⟩]

def Config.parcels : Config :=
  { descriptors := [⟨"Parcel", .keyed, none,
      [⟨"content", some 1, [5], [24], false, false, none⟩, ⟨"note", some 2, [], [], false, true, none⟩]⟩] }

def Value.parcel : Value :=
  .record "Parcel"
    [("content", .embedded (.visited (.seq (Option.some 1)) (.seq [.visited .u64 (.int .u64 0)])) (Option.some [0x81, 0x00])),
      ("note", .none)]

theorem Config.decode_parcel :
    Config.parcels.decode .parcel [0xbf, 0xc5, 0x01, 0xd8, 0x18, 0x42, 0x81, 0x00, 0x02, 0xa0, 0xff] =
        .ok .parcel ∧
      Config.parcels.decode .parcel [0xbf, 0xc5, 0x01, 0xd8, 0x18, 0x42, 0x81] = .error .truncatedInput ∧
      Config.parcels.decode .parcel
        [0xbf, 0xc5, 0x01, 0xd8, 0x18, 0x42, 0x81, 0x00, 0x02, 0xa0, 0xff, 0x00] =
          .error (.trailingData 1) := by
  have accepted : Config.parcels.decode .parcel
      [0xbf, 0xc5, 0x01, 0xd8, 0x18, 0x42, 0x81, 0x00, 0x02, 0xa0, 0xff] = .ok .parcel := by rfl
  obtain ⟨cut, extended⟩ := Config.decode_prefix_free accepted
  exact ⟨accepted, cut _ [0x00, 0x02, 0xa0, 0xff] (by simp) rfl, extended [0x00] (by simp)⟩

end TypedCbor
