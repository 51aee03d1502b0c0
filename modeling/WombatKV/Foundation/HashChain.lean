import Mathlib.Data.List.Basic
import Mathlib.Data.List.Induction

/-! Chains of hashes: each link is mixed into the hash so far. -/

namespace WombatKV

structure HashChain (ι δ ς β : Type) where
  hash : ι → δ
  seedInput : ς → ι
  mixInput : δ → β → ι
  seedInput_inj : ∀ seed other, seedInput seed = seedInput other → seed = other
  mixInput_inj : ∀ current link other otherLink,
    mixInput current link = mixInput other otherLink → current = other ∧ link = otherLink
  apart : ∀ seed current link, seedInput seed ≠ mixInput current link

namespace HashChain

variable {ι δ ς β : Type} (chain : HashChain ι δ ς β)

def digest (seed : ς) (links : List β) : δ :=
  links.foldl (fun current link => chain.hash (chain.mixInput current link))
    (chain.hash (chain.seedInput seed))

inductive Hashed (seed : ς) (links : List β) : ι → Prop
  | seed : Hashed seed links (chain.seedInput seed)
  | link {front : List β} {link : β} : front ++ [link] <+: links →
      Hashed seed links (chain.mixInput (chain.digest seed front) link)

def FreeOn (used : ι → Prop) : Prop :=
  ∀ input other, used input → used other → chain.hash input = chain.hash other → input = other

variable {chain}

theorem digest_append (seed : ς) (front : List β) (link : β) :
    chain.digest seed (front ++ [link]) =
      chain.hash (chain.mixInput (chain.digest seed front) link) := by
  rw [digest, List.foldl_append]
  rfl

theorem Hashed.mono {seed : ς} {front links : List β} (part : front <+: links) {input : ι}
    (hashed : chain.Hashed seed front input) : chain.Hashed seed links input := by
  cases hashed with
  | seed => exact .seed
  | link start => exact .link (start.trans part)

theorem digest_inj {used : ι → Prop} (free : chain.FreeOn used) {seed other : ς}
    {links others : List β} (hashed : ∀ input, chain.Hashed seed links input → used input)
    (otherHashed : ∀ input, chain.Hashed other others input → used input)
    (same : chain.digest seed links = chain.digest other others) :
    seed = other ∧ links = others := by
  induction links using List.reverseRecOn generalizing others with
  | nil =>
    rcases List.eq_nil_or_concat' others with rfl | ⟨front, link, rfl⟩
    · have inputs := free _ _ (hashed _ .seed) (otherHashed _ .seed) same
      exact ⟨chain.seedInput_inj _ _ inputs, rfl⟩
    · rw [digest_append] at same
      have inputs := free _ _ (hashed _ .seed) (otherHashed _ (.link List.prefix_rfl)) same
      exact absurd inputs (chain.apart _ _ _)
  | append_singleton before link ih =>
    rcases List.eq_nil_or_concat' others with rfl | ⟨front, otherLink, rfl⟩
    · rw [digest_append] at same
      have inputs := free _ _ (hashed _ (.link List.prefix_rfl)) (otherHashed _ .seed) same
      exact absurd inputs.symm (chain.apart _ _ _)
    · rw [digest_append, digest_append] at same
      have inputs := free _ _ (hashed _ (.link List.prefix_rfl))
        (otherHashed _ (.link List.prefix_rfl)) same
      obtain ⟨currents, linked⟩ := chain.mixInput_inj _ _ _ _ inputs
      obtain ⟨seeds, fronts⟩ := ih (fun input part => hashed input (part.mono ⟨[link], rfl⟩))
        (fun input part => otherHashed input (part.mono ⟨[otherLink], rfl⟩)) currents
      exact ⟨seeds, by rw [fronts, linked]⟩

end HashChain

end WombatKV
