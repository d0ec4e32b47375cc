import DesignTokens.Config

/-!
# Accepted configs

What a config holds that validation accepts.
-/

namespace DesignTokens.Config

structure Accepted (config : Config) : Prop where
  brand : Text.allBlank config.brand = false
  category : Text.allBlank config.category = false
  pixels : ∀ b, ∃ width, config.pixels b = .ok width
  className : ∀ name ∈ config.classes.keys, Text.allBlank name = false

theorem accepted_of_validate {config : Config} (h : config.validate = .ok ()) : config.Accepted := by
  unfold validate at h
  split at h
  · cases h
  rename_i hbrand
  split at h
  · cases h
  rename_i hcategory
  split at h
  · cases h
  cases hmobile : config.pixels .mobile with
  | error fault =>
      rw [hmobile] at h
      cases h
  | ok mobile =>
      cases hdesktop : config.pixels .desktop with
      | error fault =>
          rw [hmobile, hdesktop] at h
          cases h
      | ok desktop =>
          simp only [hmobile, hdesktop, bind, Except.bind] at h
          split at h
          · cases h
          split at h
          · cases h
          · rename_i hnames
            refine ⟨by simpa using hbrand, by simpa using hcategory, ?_, ?_⟩
            · intro b
              cases b with
              | mobile => exact ⟨mobile, hmobile⟩
              | desktop => exact ⟨desktop, hdesktop⟩
            · intro name hname
              simpa using List.find?_eq_none.1 hnames name hname

theorem Accepted.className_ne_empty {config : Config} (h : config.Accepted) {name : String}
    (hname : name ∈ config.classes.keys) : name ≠ "" := by
  rintro rfl
  exact absurd (h.className "" hname) (by decide)

theorem validate_eq_ok {config : Config} (h : config.validate.isOk = true) : config.validate = .ok () := by
  cases hvalidate : config.validate with
  | error fault =>
      rw [hvalidate] at h
      cases h
  | ok _ => rfl

end DesignTokens.Config
