namespace TermSearch.Decimal

/-! The decimal digits of a number. -/

theorem isDigit_of_mem_toDigits {n : Nat} {c : Char}
    (h : c ∈ Nat.toDigits 10 n) : c.isDigit = true :=
  Nat.isDigit_of_mem_toDigits (by decide) (by decide) h

theorem not_mem_toDigits {c : Char} (h : c.isDigit = false) (n : Nat) :
    c ∉ Nat.toDigits 10 n := by
  intro hmem
  rw [isDigit_of_mem_toDigits hmem] at h
  contradiction

theorem exists_toDigits_eq_cons (n : Nat) :
    ∃ digit digits, Nat.toDigits 10 n = digit :: digits ∧
      digit.isDigit = true := by
  cases hdigits : Nat.toDigits 10 n with
  | nil => exact absurd hdigits Nat.toDigits_ne_nil
  | cons digit digits =>
      exact ⟨digit, digits, rfl,
        isDigit_of_mem_toDigits (hdigits ▸ List.mem_cons_self)⟩

theorem head?_toDigits_ne {n : Nat} (h : 0 < n) :
    (Nat.toDigits 10 n).head? ≠ some '0' := by
  induction n using Nat.strongRecOn with
  | _ n ih =>
      by_cases hsmall : n < 10
      · rw [Nat.toDigits_of_lt_base hsmall]
        simp
        omega
      · rw [Nat.toDigits_of_base_le (by decide) (by omega), List.head?_append]
        have hhead := ih (n / 10) (by omega) (by omega)
        obtain ⟨digit, digits, hdigits, -⟩ := exists_toDigits_eq_cons (n / 10)
        rw [hdigits] at hhead ⊢
        simpa using hhead

/-! In every base up to sixteen the digits say which number it is. -/

theorem digitChar_injective :
    ∀ m < 16, ∀ n < 16, Nat.digitChar m = Nat.digitChar n → m = n := by
  decide

theorem toDigits_injective {base : Nat} (hbase : 1 < base)
    (hsmall : base ≤ 16) {m n : Nat}
    (h : Nat.toDigits base m = Nat.toDigits base n) : m = n := by
  induction m using Nat.strongRecOn generalizing n with
  | _ m ih =>
      rw [Nat.toDigits_eq_if hbase, Nat.toDigits_eq_if hbase (n := n)] at h
      have hnil (k : Nat) : Nat.toDigits base k ≠ [] := Nat.toDigits_ne_nil
      split at h
      · split at h
        · exact digitChar_injective m (by omega) n
            (by omega) (List.singleton_inj.mp h)
        · exact absurd (congrArg List.length h) (by simp [hnil])
      · split at h
        · exact absurd (congrArg List.length h) (by simp [hnil])
        · rename_i hm hn
          obtain ⟨hquotient, hdigit⟩ := List.append_inj' h rfl
          have hpositive : 0 < base := Nat.zero_lt_of_lt hbase
          have hless : m / base < m := Nat.div_lt_self (by omega) hbase
          have hremainder : m % base = n % base :=
            digitChar_injective _
              (Nat.lt_of_lt_of_le (Nat.mod_lt m hpositive) hsmall)
              _ (Nat.lt_of_lt_of_le (Nat.mod_lt n hpositive) hsmall)
              (List.singleton_inj.mp hdigit)
          rw [← Nat.div_add_mod m base, ← Nat.div_add_mod n base,
            ih _ hless hquotient, hremainder]

theorem exists_of_mem_toDigits {base : Nat} (hbase : 1 < base) {n : Nat}
    {c : Char} (h : c ∈ Nat.toDigits base n) :
    ∃ digit < base, c = digit.digitChar := by
  induction n using Nat.strongRecOn with
  | _ n ih =>
      rw [Nat.toDigits_eq_if hbase] at h
      split at h
      · rename_i hn
        exact ⟨n, hn, List.mem_singleton.mp h⟩
      · rcases List.mem_append.mp h with hmem | hmem
        · exact ih _ (Nat.div_lt_self (by omega) hbase) hmem
        · exact ⟨n % base, Nat.mod_lt n (by omega), List.mem_singleton.mp hmem⟩

end TermSearch.Decimal
