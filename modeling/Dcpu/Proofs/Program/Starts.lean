import Dcpu.Fallible
import Dcpu.Program.Assembly

/-! Where instructions start in the machine code of a program. At every start stands the encoding
of an instruction that goes with its tag. -/
namespace Dcpu.Program

open Fallible

variable {τ : Type} [BEq τ] [LawfulBEq τ] [Hashable τ]

/-- In the code, the encoding of one of the entries with the tag stands at the address. -/
def Tagged.Places (p : Tagged τ) (entries : List (Instruction × τ)) (address : Word) (tag : τ) :
    Prop :=
  ∃ i words before after, (i, tag) ∈ entries ∧ i.encode = .ok words ∧
    p.code.toList = before ++ (words ++ after) ∧ address = UInt16.ofNat before.length

/-- Every start is the place of an entry. -/
def Tagged.Faithful (p : Tagged τ) (entries : List (Instruction × τ)) : Prop :=
  ∀ address tag, p.starts.tagAt? address = some tag → p.Places entries address tag

theorem Tagged.faithful_empty : (empty : Tagged τ).Faithful [] := by
  intro address tag h
  rw [empty, AddressMap.tagAt?_empty] at h
  cases h

theorem Tagged.append_eq_ok_iff {p q : Tagged τ} {i : Instruction} {tag : τ} :
    p.append i tag = .ok q ↔ ∃ words, i.encode = .ok words ∧
      q = ⟨p.code ++ words, p.starts.insert (UInt16.ofNat p.code.size) tag⟩ := by
  unfold append
  cases i.encode with
  | error e => simp
  | ok words => simp [eq_comm]

/-- One more instruction leaves the others in their places, and a tag that it takes over from
another goes with the new one. -/
theorem Tagged.faithful_append {p q : Tagged τ} {entries : List (Instruction × τ)}
    {i : Instruction} {tag : τ} (hp : p.Faithful entries) (h : p.append i tag = .ok q) :
    q.Faithful (entries ++ [(i, tag)]) := by
  obtain ⟨words, he, rfl⟩ := append_eq_ok_iff.1 h
  intro address t ht
  obtain ⟨rfl, rfl⟩ | ⟨-, -, ht⟩ := (AddressMap.tagAt?_insert ..).1 ht
  · exact ⟨i, words, p.code.toList, [], by simp, he, by simp, by simp⟩
  · obtain ⟨j, words', before, after, hj, he', hcode, haddress⟩ := hp address t ht
    refine ⟨j, words', before, after ++ words, by simp [hj], he', ?_, haddress⟩
    simp [hcode]

theorem Tagged.faithful_foldlM {p q : Tagged τ} {done entries : List (Instruction × τ)}
    (hp : p.Faithful done)
    (h : entries.foldlM (fun p entry => p.append entry.1 entry.2) p = .ok q) :
    q.Faithful (done ++ entries) := by
  induction entries generalizing p done with
  | nil =>
    cases h
    rwa [List.append_nil]
  | cons entry entries ih =>
    rw [List.foldlM_cons, bind_eq_ok_iff] at h
    obtain ⟨r, hr, h⟩ := h
    have hfaithful := ih (faithful_append hp hr) h
    rwa [List.append_assoc] at hfaithful

theorem faithful_of_assembleTagged {entries : List (Instruction × τ)} {p : Tagged τ}
    (h : assembleTagged entries = .ok p) : p.Faithful entries :=
  Tagged.faithful_foldlM Tagged.faithful_empty h

/-- Where instructions are tagged with their positions, those tags give the instructions back. -/
theorem places_of_addressOf? {is : List Instruction} {p : Tagged Nat} {k : Nat} {address : Word}
    (h : assembleTagged is.zipIdx = .ok p) (hk : p.starts.addressOf? k = some address) :
    ∃ i words before after, is[k]? = some i ∧ i.encode = .ok words ∧
      p.code.toList = before ++ (words ++ after) ∧ address = UInt16.ofNat before.length := by
  obtain ⟨i, words, before, after, hi, hplace⟩ :=
    faithful_of_assembleTagged h address k ((AddressMap.addressOf?_eq_some_iff ..).1 hk)
  exact ⟨i, words, before, after, List.mk_mem_zipIdx_iff_getElem?.1 hi, hplace⟩

end Dcpu.Program
