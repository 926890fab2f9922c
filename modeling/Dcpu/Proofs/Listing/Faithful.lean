import Dcpu.Proofs.Instruction.Text
import Dcpu.Proofs.Listing.Decoding
import Dcpu.Proofs.Reading.Bytes

/-! Listings say everything: the text of a stream of bytes is the text of no other stream. -/
namespace Dcpu

open Fallible

namespace Listing

/-- Instructions on a line each. -/
def render (is : List Instruction) : String := String.join (is.map fun i => i.text ++ "\n")

theorem toList_render_cons (i : Instruction) (is : List Instruction) :
    (render (i :: is)).toList = i.text.toList ++ '\n' :: (render is).toList := by
  simp [render]

/-- A listing falls apart into the lines of its instructions. -/
theorem render_inj {is js : List Instruction} : render is = render js ↔ is = js := by
  constructor
  · intro h
    have hchars := congrArg String.toList h
    clear h
    induction is generalizing js with
    | nil =>
      cases js with
      | nil => rfl
      | cons j js => simp [render] at hchars
    | cons i is ih =>
      cases js with
      | nil => simp [render] at hchars
      | cons j js =>
        rw [toList_render_cons, toList_render_cons,
          Text.append_cons_inj i.notMem_text j.notMem_text] at hchars
        obtain ⟨htext, hrest⟩ := hchars
        rw [Instruction.text_inj.1 (String.toList_inj.1 htext), ih hrest]
  · intro h
    rw [h]

end Listing

namespace ByteReader

theorem text_eq_ok_iff {r : ByteReader} {text : String} :
    r.text = .ok text ↔ ∃ is, r.instructions = .ok is ∧ Listing.render is = text := by
  rw [text_eq, instructions_eq]
  exact map_eq_ok_iff

theorem bytes_eq_of_instructions {order : ByteOrder} {bytes bytes' : List UInt8}
    {is : List Instruction} (h : (mk order bytes).instructions = .ok is)
    (h' : (mk order bytes').instructions = .ok is) : bytes = bytes' := by
  obtain ⟨words, hwords, hassemble⟩ := exists_words_of_instructions h
  obtain ⟨words', hwords', hassemble'⟩ := exists_words_of_instructions h'
  rw [hassemble] at hassemble'
  cases hassemble'
  have hbytes : bytes = order.bytes words := ByteOrder.words_eq_ok_iff.1 hwords
  have hbytes' : bytes' = order.bytes words := ByteOrder.words_eq_ok_iff.1 hwords'
  rw [hbytes, hbytes']

/-- Streams with one text have the same bytes, and instructions with one text are the same. -/
theorem text_faithful :
    (∀ (order : ByteOrder) (bytes bytes' : List UInt8) (text : String),
      (mk order bytes).text = .ok text → (mk order bytes').text = .ok text → bytes = bytes') ∧
    ∀ i j : Instruction, i.text = j.text → i = j := by
  refine ⟨fun order bytes bytes' text h h' => ?_, fun i j h => Instruction.text_inj.1 h⟩
  obtain ⟨is, his, hrender⟩ := text_eq_ok_iff.1 h
  obtain ⟨js, hjs, hrender'⟩ := text_eq_ok_iff.1 h'
  rw [← hrender', Listing.render_inj] at hrender
  exact bytes_eq_of_instructions his (hrender ▸ hjs)

/-- A literal and an immediate of the same value are told apart. -/
theorem text_faithful_of_one :
    (mk .big [0x7c, 0x01, 0x00, 0x01, 0x88, 0x01]).text = .ok "SET A, 0x0001\nSET A, 1\n" ∧
    ∀ bytes, (mk .big bytes).text = .ok "SET A, 0x0001\nSET A, 1\n" →
      bytes = [0x7c, 0x01, 0x00, 0x01, 0x88, 0x01] := by
  have hitems : (mk .big [0x7c, 0x01, 0x00, 0x01, 0x88, 0x01]).items =
      [.ok ⟨.operate .set, some (.register .a), .immediate 1⟩,
        .ok ⟨.operate .set, some (.register .a), .literal 1⟩] := by cbv
  have his := congrArg (List.mapM id) hitems
  have h : (mk .big [0x7c, 0x01, 0x00, 0x01, 0x88, 0x01]).text =
      .ok "SET A, 0x0001\nSET A, 1\n" := text_eq_ok_iff.2 ⟨_, his, rfl⟩
  exact ⟨h, fun bytes hbytes => text_faithful.1 .big bytes _ _ hbytes h⟩

end ByteReader

end Dcpu
