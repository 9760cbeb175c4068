import LayeredConfig.Proofs.Text.Pieces
import LayeredConfig.Proofs.Text.Runs
import LayeredConfig.Redaction

/-!
# Passwords in addresses

The password of an address is masked wherever the address stands.  A match that begins in front of the address
ends in front of it, since no match goes on over a colon with a slash behind it, and the match at the address
takes all of its password.  So the text in front, the address and the text behind are searched one by one, and
what bearer tokens are searched for in afterwards no longer holds the password.

* `address` — an address from the colon behind its scheme to its at sign.
* `credentials_eq_some_iff` — a user and a password are read where their address stands.
* `hidePasswords_address` — an address between two texts.
* `text_congr_password` — passwords have no influence on what is logged.
-/

namespace LayeredConfig.Redaction

variable {c : Char} {n : Nat} {user password p q s u : List Char}

/-- The user of an address. -/
structure IsUser (user : List Char) : Prop where
  ne_nil : user ≠ []
  chars : ∀ c ∈ user, c ≠ ':' ∧ c ≠ '/' ∧ c ≠ '@' ∧ Text.isBlank c = false

/-- The password of an address; it may hold colons. -/
structure IsPassword (password : List Char) : Prop where
  ne_nil : password ≠ []
  chars : ∀ c ∈ password, c ≠ '@' ∧ c ≠ '/' ∧ Text.isBlank c = false

/-- The user and the password of an address, from the colon behind its scheme to its at sign. -/
def address (user password : List Char) : List Char :=
  "://".toList ++ user ++ ":".toList ++ password ++ "@".toList

/-! ## Reading an address -/

theorem isUserChar_iff : isUserChar c = true ↔ c ≠ ':' ∧ c ≠ '/' ∧ c ≠ '@' ∧ Text.isBlank c = false := by
  simp [isUserChar, and_assoc]

theorem isPasswordChar_iff : isPasswordChar c = true ↔ c ≠ '@' ∧ c ≠ '/' ∧ Text.isBlank c = false := by
  simp [isPasswordChar, and_assoc]

theorem isUser_iff : IsUser user ↔ user ≠ [] ∧ user.all isUserChar = true := by
  simp only [List.all_eq_true, isUserChar_iff]
  exact ⟨fun h => ⟨h.ne_nil, h.chars⟩, fun h => ⟨h.1, h.2⟩⟩

theorem isPassword_iff : IsPassword password ↔ password ≠ [] ∧ password.all isPasswordChar = true := by
  simp only [List.all_eq_true, isPasswordChar_iff]
  exact ⟨fun h => ⟨h.ne_nil, h.chars⟩, fun h => ⟨h.1, h.2⟩⟩

instance : DecidablePred IsUser := fun _ => decidable_of_iff _ isUser_iff.symm

instance : DecidablePred IsPassword := fun _ => decidable_of_iff _ isPassword_iff.symm

theorem address_append (user password s : List Char) :
    address user password ++ s = ':' :: '/' :: '/' :: (user ++ ':' :: (password ++ '@' :: s)) := by
  simp [address]

theorem length_address (user password : List Char) :
    (address user password).length = user.length + password.length + 5 := by
  simp [address]
  omega

theorem credentials_address_append (huser : IsUser user) (hpassword : IsPassword password) (s : List Char) :
    credentials (address user password ++ s) = some (user, (address user password).length) := by
  have huserChars : ∀ c ∈ user, isUserChar c = true := List.all_eq_true.1 (isUser_iff.1 huser).2
  have hpasswordChars : ∀ c ∈ password, isPasswordChar c = true :=
    List.all_eq_true.1 (isPassword_iff.1 hpassword).2
  have htake := Text.takeWhile_append_cons huserChars (show isUserChar ':' = false by decide)
    (password ++ '@' :: s)
  have hdrop := Text.dropWhile_append_cons huserChars (show isUserChar ':' = false by decide)
    (password ++ '@' :: s)
  have htake' := Text.takeWhile_append_cons hpasswordChars (show isPasswordChar '@' = false by decide) s
  have hdrop' := Text.dropWhile_append_cons hpasswordChars (show isPasswordChar '@' = false by decide) s
  rw [address_append, length_address]
  simp [credentials, htake, hdrop, htake', hdrop', huser.ne_nil, hpassword.ne_nil]

theorem exists_of_credentials (h : credentials s = some (user, n)) :
    IsUser user ∧ ∃ password, IsPassword password ∧ n = (address user password).length ∧
      address user password <+: s := by
  unfold credentials at h
  split at h
  · next s =>
      simp only at h
      split at h
      · next rest hdrop =>
          split at h
          · next rest' hdrop' =>
              obtain ⟨hne, hread⟩ := Option.ite_none_left_eq_some.1 h
              obtain ⟨rfl, rfl⟩ := Prod.mk.inj (Option.some.inj hread)
              have hs : s.takeWhile isUserChar ++ s.dropWhile isUserChar = s :=
                List.takeWhile_append_dropWhile
              have hrest : rest.takeWhile isPasswordChar ++ rest.dropWhile isPasswordChar = rest :=
                List.takeWhile_append_dropWhile
              rw [hdrop] at hs
              rw [hdrop'] at hrest
              rw [Bool.or_eq_true, List.isEmpty_iff, List.isEmpty_iff, not_or] at hne
              refine ⟨⟨hne.1, fun c hc => isUserChar_iff.1 (List.mem_takeWhile_imp hc)⟩, _,
                ⟨hne.2, fun c hc => isPasswordChar_iff.1 (List.mem_takeWhile_imp hc)⟩,
                (length_address _ _).symm, rest', ?_⟩
              rw [address_append, hrest, hs]
          · contradiction
      · contradiction
  · contradiction

/-- A user and a password are read where their address stands. -/
theorem credentials_eq_some_iff :
    credentials s = some (user, n) ↔
      IsUser user ∧ ∃ password, IsPassword password ∧ n = (address user password).length ∧
        address user password <+: s := by
  constructor
  · exact exists_of_credentials
  · rintro ⟨huser, password, hpassword, rfl, t, rfl⟩
    exact credentials_address_append huser hpassword t

/-- The text that a user is read from. -/
def IsAddress (user m : List Char) : Prop :=
  IsUser user ∧ ∃ password, IsPassword password ∧ m = address user password

theorem spelled_credentials : Text.Spelled credentials IsAddress where
  ne_nil := by
    rintro user _ ⟨-, password, -, rfl⟩
    exact List.ne_nil_of_length_pos (by rw [length_address]; omega)
  eq_some_iff := by
    intro s user n
    rw [credentials_eq_some_iff]
    constructor
    · rintro ⟨huser, password, hpassword, hn, hstart⟩
      exact ⟨_, ⟨huser, password, hpassword, rfl⟩, hn, hstart⟩
    · rintro ⟨_, ⟨huser, password, hpassword, rfl⟩, hn, hstart⟩
      exact ⟨huser, password, hpassword, hn, hstart⟩

/-! ## Addresses between texts -/

theorem getLast?_address (user password : List Char) : (address user password).getLast? = some '@' :=
  List.getLast?_concat

/-- Behind its own slashes an address has none. -/
theorem address_ne_append (huser : IsUser user) (hpassword : IsPassword password) (hne : u ≠ [])
    (t : List Char) : address user password ≠ u ++ ':' :: '/' :: t := by
  intro heq
  have hslash : '/' ∉ user ++ ':' :: (password ++ ['@']) := by
    simp only [List.mem_append, List.mem_cons, List.not_mem_nil, not_or]
    exact ⟨fun h => (huser.chars _ h).2.1 rfl, by decide, fun h => (hpassword.chars _ h).2.1 rfl, by decide⟩
  rw [← List.append_nil (address user password), address_append] at heq
  match u, hne, heq with
  | [_], _, heq => simp at heq
  | [_, _], _, heq => simp at heq
  | _ :: _ :: _ :: u, _, heq =>
    have htail : user ++ ':' :: (password ++ ['@']) = u ++ ':' :: '/' :: t :=
      (List.cons.inj (List.cons.inj (List.cons.inj heq).2).2).2
    exact hslash (by simp [htail])

/-- No address goes on over the start of another one. -/
theorem apart_scheme (s t : List Char) : Text.Apart IsAddress s (':' :: '/' :: '/' :: t) := by
  rintro user m u w ⟨huser, password, hpassword, rfl⟩ hu - hw hstart heq
  -- the address would end with the colon, or hold the colon and a slash behind it
  match w, hw, hstart, heq with
  | [_], _, hstart, heq =>
    obtain ⟨rfl, -⟩ := List.cons_prefix_cons.1 hstart
    have hlast := getLast?_address user password
    rw [heq, List.getLast?_concat] at hlast
    exact absurd hlast (by decide)
  | _ :: _ :: w, _, hstart, heq =>
    obtain ⟨rfl, hbehind⟩ := List.cons_prefix_cons.1 hstart
    obtain ⟨rfl, -⟩ := List.cons_prefix_cons.1 hbehind
    exact address_ne_append huser hpassword hu w heq

theorem hidePasswords_address (huser : IsUser user) (hpassword : IsPassword password) (a b : List Char) :
    hidePasswords (a ++ address user password ++ b) =
      hidePasswords a ++ address user mask ++ hidePasswords b := by
  have hfront : hidePasswords (a ++ (address user password ++ b)) =
      hidePasswords a ++ hidePasswords (address user password ++ b) := by
    rw [address_append]
    exact Text.replaceMatches_append spelled_credentials (apart_scheme a _)
  have hmatch : hidePasswords (address user password ++ b) = address user mask ++ hidePasswords b := by
    rw [hidePasswords, Text.replaceMatches_of_some (credentials_address_append huser hpassword b)
      (by simp [address])]
    simp [hidePasswords, address]
  rw [List.append_assoc, hfront, hmatch, List.append_assoc]

/-- Whatever stands around an address, its password has no influence on what is logged. -/
theorem text_congr_password (huser : IsUser user) (hp : IsPassword p) (hq : IsPassword q) (a b : List Char) :
    text (a ++ address user p ++ b) = text (a ++ address user q ++ b) := by
  rw [text, text, hidePasswords_address huser hp, hidePasswords_address huser hq]

/-- A password that looks like a token, and one like the start of another address. -/
theorem text_congr_password_database :
    IsUser "admin".toList ∧ IsPassword "Bearer:x1".toList ∧ IsPassword ":".toList ∧
      text ("at http://a:b jdbc:postgresql".toList ++ address "admin".toList "Bearer:x1".toList ++
          "db:5432/app?u=x://c:d@e".toList) =
        text ("at http://a:b jdbc:postgresql".toList ++ address "admin".toList ":".toList ++
          "db:5432/app?u=x://c:d@e".toList) := by
  have huser : IsUser "admin".toList := by decide
  have hp : IsPassword "Bearer:x1".toList := by decide
  have hq : IsPassword ":".toList := by decide
  exact ⟨huser, hp, hq, text_congr_password huser hp hq _ _⟩

end LayeredConfig.Redaction
