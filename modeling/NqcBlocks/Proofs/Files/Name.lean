import NqcBlocks.Output
import NqcBlocks.Proofs.Text.Trimming

/-!
# Names of programs

A file name has no character that is forbidden in names and no blank at either end. Cleaning a name gives a
file name (`isFileName_cleanFileName`) and leaves file names as they are (`cleanFileName_eq_self`). Whoever asks
for the name of a program may therefore have it cleaned already or not: the file is the same
(`Job.name_of_config`).
-/

namespace NqcBlocks

open List Text

variable {c : Char}

/-- **A name that a file can have.** -/
structure IsFileName (name : String) : Prop where
  nonempty : name ≠ ""
  allowed : ∀ c ∈ name.toList, 32 ≤ c.toNat ∧ c ∉ ['<', '>', ':', '"', '/', '\\', '|', '?', '*']
  front : ∀ c ∈ name.toList.head?, isBlank c = false
  back : ∀ c ∈ name.toList.getLast?, isBlank c = false

theorem isForbiddenInName_eq_false : isForbiddenInName c = false
    ↔ 32 ≤ c.toNat ∧ c ∉ ['<', '>', ':', '"', '/', '\\', '|', '?', '*'] := by
  simp [isForbiddenInName]

def nameChars (name : String) : List Char := name.toList.filter fun c => !isForbiddenInName c

theorem cleanFileName_eq (name : String) : cleanFileName name = defaultProjectName
      ∧ trimChars isBlank (nameChars name) = []
    ∨ cleanFileName name = String.ofList (trimChars isBlank (nameChars name))
      ∧ trimChars isBlank (nameChars name) ≠ [] := by
  by_cases h : trimChars isBlank (nameChars name) = []
  · exact .inl ⟨if_pos (isEmpty_iff.mpr h), h⟩
  · exact .inr ⟨if_neg fun hempty => h (isEmpty_iff.mp hempty), h⟩

theorem isFileName_cleanFileName (name : String) : IsFileName (cleanFileName name) := by
  rcases cleanFileName_eq name with ⟨h, -⟩ | ⟨h, hne⟩
  · rw [h]
    exact ⟨by decide, by decide, by rintro c ⟨⟩; decide, by rintro c ⟨⟩; decide⟩
  · rw [h]
    refine ⟨fun h => hne (String.ofList_eq_empty_iff.mp h), ?_, ?_, ?_⟩ <;> rw [String.toList_ofList] <;> intro c hc
    · have hkept := (mem_filter.mp (mem_of_mem_trimChars hc)).2
      exact isForbiddenInName_eq_false.mp (by simpa using hkept)
    · exact head?_trimChars hc
    · exact getLast?_trimChars hc

theorem cleanFileName_eq_self {name : String} (h : IsFileName name) : cleanFileName name = name := by
  have hchars : nameChars name = name.toList :=
    filter_eq_self.mpr fun c hc => by rw [isForbiddenInName_eq_false.mpr (h.allowed c hc)]; rfl
  have htrim := trimChars_eq_self h.front h.back
  rcases cleanFileName_eq name with ⟨-, hempty⟩ | ⟨hname, -⟩
  · rw [hchars, htrim] at hempty
    exact absurd (String.toList_eq_nil_iff.mp hempty) h.nonempty
  · rw [hname, hchars, htrim, String.ofList_toList]

theorem cleanFileName_cleanFileName (name : String) : cleanFileName (cleanFileName name) = cleanFileName name :=
  cleanFileName_eq_self (isFileName_cleanFileName name)

/-- The default name stands for names of which nothing is left, and for itself. -/
theorem cleanFileName_eq_default_iff (name : String) : cleanFileName name = defaultProjectName ↔
    (∀ c ∈ nameChars name, isBlank c = true)
      ∨ ∃ front back, (∀ c ∈ front ++ back, isBlank c = true)
        ∧ nameChars name = front ++ defaultProjectName.toList ++ back := by
  constructor
  · intro h
    obtain ⟨front, back, hblank, hchars⟩ := exists_append_trimChars isBlank (nameChars name)
    rcases cleanFileName_eq name with ⟨-, hempty⟩ | ⟨hname, -⟩
    · rw [hempty, append_nil] at hchars
      rw [hchars]
      exact .inl hblank
    · rw [show trimChars isBlank (nameChars name) = defaultProjectName.toList by
        rw [← h, hname, String.toList_ofList]] at hchars
      exact .inr ⟨front, back, hblank, hchars⟩
  · rintro (hblank | ⟨front, back, hblank, hchars⟩)
    · have htrim := trimChars_append (nameChars name) [] [] (by simpa using hblank) (by simp) (by simp)
      rcases cleanFileName_eq name with ⟨h, -⟩ | ⟨-, hne⟩
      · exact h
      · exact absurd (by simpa using htrim) hne
    · have htrim := trimChars_append front defaultProjectName.toList back hblank (by rintro c ⟨⟩; decide)
        (by rintro c ⟨⟩; decide)
      rw [← hchars] at htrim
      rcases cleanFileName_eq name with ⟨h, -⟩ | ⟨h, -⟩
      · exact h
      · rw [h, htrim, String.ofList_toList]

theorem Config.cleanFileName_programNameFor (config : Config) (path : Files.Path) :
    cleanFileName (config.programNameFor path) = config.programNameFor path := by
  unfold Config.programNameFor Config.programFileStem
  split <;> exact cleanFileName_cleanFileName _

theorem Job.name_of_config (j : Job) {config : Config} (hconfig : j.config = some config)
    (hname : j.programName = none) : j.name = config.programNameFor j.input := by
  unfold Job.name
  rw [hname, hconfig]
  exact config.cleanFileName_programNameFor j.input

end NqcBlocks
