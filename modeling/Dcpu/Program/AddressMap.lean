import Std.Data.HashMap
import Dcpu.Word

/-! One-to-one maps between addresses and tags. A new pair displaces every pair that shares its
address or its tag. -/
namespace Dcpu

/-- The pairs, indexed from both sides. -/
structure AddressMap (τ : Type) [BEq τ] [Hashable τ] where
  tags : Std.HashMap Word τ
  addresses : Std.HashMap τ Word
  tags_eq_some_iff : ∀ (a : Word) (t : τ), tags[a]? = some t ↔ addresses[t]? = some a

namespace AddressMap

variable {τ : Type} [BEq τ] [Hashable τ]

def tagAt? (m : AddressMap τ) (address : Word) : Option τ := m.tags[address]?

def addressOf? (m : AddressMap τ) (tag : τ) : Option Word := m.addresses[tag]?

def size (m : AddressMap τ) : Nat := m.tags.size

/-- The pairs by ascending address. -/
def toList (m : AddressMap τ) : List (Word × τ) :=
  m.tags.toList.mergeSort fun p q => p.1 ≤ q.1

theorem addressOf?_eq_some_iff (m : AddressMap τ) (address : Word) (tag : τ) :
    m.addressOf? tag = some address ↔ m.tagAt? address = some tag :=
  (m.tags_eq_some_iff address tag).symm

/-- One index without the key `k` and without the key that is paired with `v`. -/
private theorem getElem?_erase_erase {α β : Type} [BEq α] [LawfulBEq α] [Hashable α]
    {m : Std.HashMap α β} {o : Option α} {k : α} {v : β}
    (h : ∀ a, m[a]? = some v ↔ o = some a) (a : α) (b : β) :
    ((m.erase (o.getD k)).erase k)[a]? = some b ↔ a ≠ k ∧ b ≠ v ∧ m[a]? = some b := by
  have hv := h a
  cases o <;> grind

variable [LawfulBEq τ]

def empty : AddressMap τ := ⟨∅, ∅, by simp⟩

theorem tagAt?_empty (address : Word) : (empty : AddressMap τ).tagAt? address = none := by
  simp [empty, tagAt?]

/-- Take out the pairs that have the given address or the given tag. -/
def release (m : AddressMap τ) (address : Word) (tag : τ) : AddressMap τ :=
  let oldAddress := (m.addresses[tag]?).getD address
  let oldTag := (m.tags[address]?).getD tag
  { tags := (m.tags.erase oldAddress).erase address
    addresses := (m.addresses.erase oldTag).erase tag
    tags_eq_some_iff := by
      intro a t
      rw [getElem?_erase_erase (fun a => m.tags_eq_some_iff a tag),
        getElem?_erase_erase (fun t => (m.tags_eq_some_iff address t).symm),
        m.tags_eq_some_iff]
      constructor <;> exact fun ⟨h₁, h₂, h₃⟩ => ⟨h₂, h₁, h₃⟩ }

theorem tagAt?_release (m : AddressMap τ) (address a : Word) (tag t : τ) :
    (m.release address tag).tagAt? a = some t ↔
      a ≠ address ∧ t ≠ tag ∧ m.tagAt? a = some t :=
  getElem?_erase_erase (fun a => m.tags_eq_some_iff a tag) a t

def insert (m : AddressMap τ) (address : Word) (tag : τ) : AddressMap τ :=
  let rest := m.release address tag
  { tags := rest.tags.insert address tag
    addresses := rest.addresses.insert tag address
    tags_eq_some_iff := by
      intro a t
      have free := m.tagAt?_release address a tag t
      have key := rest.tags_eq_some_iff a t
      simp only [tagAt?] at free
      simp only [Std.HashMap.getElem?_insert, beq_iff_eq]
      by_cases ha : address = a <;> by_cases ht : tag = t <;> simp_all [rest] }

theorem tagAt?_insert (m : AddressMap τ) (address a : Word) (tag t : τ) :
    (m.insert address tag).tagAt? a = some t ↔
      (a = address ∧ t = tag) ∨ (a ≠ address ∧ t ≠ tag ∧ m.tagAt? a = some t) := by
  have free := m.tagAt?_release address a tag t
  simp only [tagAt?] at free
  simp only [insert, tagAt?, Std.HashMap.getElem?_insert, beq_iff_eq]
  by_cases ha : address = a
  · subst ha
    simp [eq_comm]
  · simp only [ha, if_false, free]
    simp [Ne.symm ha]

end AddressMap

end Dcpu
