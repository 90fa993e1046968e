import RemotePkgInstaller.ByteString
import Mathlib.Data.List.Basic

/-! Programs that look at the bytes of several buffers.  A program carries the places it has
looked at, and it ends with a value exactly if all of them lie in their buffers. -/
namespace RemotePkgInstaller
namespace Looks

variable {ι α β : Type}

structure Looking (mem : ι → Bytes) (α : Type) where
  examined : List (ι × ℕ)
  value : Option α
  inside : value.isSome = true ↔ ∀ e ∈ examined, e.2 < (mem e.1).length

variable {mem : ι → Bytes}

namespace Looking

/-- Look at one byte. -/
def look (b : ι) (i : ℕ) : Looking mem UInt8 where
  examined := [(b,i)]
  value := (mem b)[i]?
  inside := by simp

/-- Go on with the value, if there is one. -/
def andThen (x : Looking mem α) (f : α → Looking mem β) : Looking mem β where
  examined := x.examined++(x.value.map fun a => (f a).examined).getD []
  value := x.value.bind fun a => (f a).value
  inside := by
    cases h : x.value with
    | none =>
      have hx := x.inside
      rw [h] at hx
      simpa using hx
    | some a =>
      have hx := x.inside
      rw [h] at hx
      simp only [Option.isSome_some,true_iff] at hx
      simp only [Option.bind_some,Option.map_some,Option.getD_some,List.mem_append,(f a).inside]
      exact ⟨fun hf e he => he.elim (hx e) (hf e),fun hf e he => hf e (Or.inr he)⟩

instance : Monad (Looking mem) where
  pure := fun a => ⟨[],some a,by simp⟩
  bind := andThen

@[simp] theorem value_pure (a : α) : (pure a : Looking mem α).value = some a := rfl
@[simp] theorem value_look (b : ι) (i : ℕ) : (look b i : Looking mem UInt8).value = (mem b)[i]? := rfl
@[simp] theorem value_bind (x : Looking mem α) (f : α → Looking mem β) :
    (x >>= f).value = x.value.bind fun a => (f a).value := rfl

end Looking

open Looking

/-- The program ends with this value, and looks only at places with the property. -/
structure Gives (P : ι × ℕ → Prop) (x : Looking mem α) (a : α) : Prop where
  value : x.value = some a
  examined : ∀ e ∈ x.examined, P e

section Rules

variable {P Q : ι × ℕ → Prop} {x : Looking mem α} {f : α → Looking mem β} {a : α} {b : β}

theorem gives_pure (a : α) : Gives P (pure a : Looking mem α) a := ⟨rfl,fun _ he => nomatch he⟩

theorem gives_look {buffer : ι} {i : ℕ} {c : UInt8} (h : (mem buffer)[i]? = some c)
    (hP : P (buffer,i)) : Gives P (look buffer i : Looking mem UInt8) c :=
  ⟨h,fun _ he => List.mem_singleton.mp he ▸ hP⟩

theorem Gives.bind (hx : Gives P x a) (hf : Gives P (f a) b) : Gives P (x >>= f) b := by
  refine ⟨by rw [value_bind,hx.value]; exact hf.value,fun e he => ?_⟩
  change e ∈ x.examined++(x.value.map fun a => (f a).examined).getD [] at he
  rw [hx.value] at he
  rcases List.mem_append.mp he with he | he
  · exact hx.examined e he
  · exact hf.examined e he

theorem Gives.mono (hx : Gives P x a) (hPQ : ∀ e, P e → Q e) : Gives Q x a :=
  ⟨hx.value,fun e he => hPQ e (hx.examined e he)⟩

/-- Whether or not it ends with a value, the program looks only at places with the property. -/
def Examines (P : ι × ℕ → Prop) (x : Looking mem α) : Prop := ∀ e ∈ x.examined, P e

theorem examines_pure (a : α) : Examines P (pure a : Looking mem α) := fun _ he => nomatch he

theorem examines_look {buffer : ι} {i : ℕ} (hP : P (buffer,i)) :
    Examines P (look buffer i : Looking mem UInt8) :=
  fun _ he => List.mem_singleton.mp he ▸ hP

theorem Examines.bind (hx : Examines P x) (hf : ∀ a, x.value = some a → Examines P (f a)) :
    Examines P (x >>= f) := by
  intro e he
  change e ∈ x.examined++(x.value.map fun a => (f a).examined).getD [] at he
  rcases List.mem_append.mp he with he | he
  · exact hx e he
  · cases hvalue : x.value with
    | none =>
      rw [hvalue] at he
      cases he
    | some a =>
      rw [hvalue] at he
      exact hf a hvalue e he

end Rules

end Looks
end RemotePkgInstaller
