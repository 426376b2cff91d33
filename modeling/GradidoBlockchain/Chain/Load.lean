import GradidoBlockchain.Chain.Retry

/-!
# Filling a chain from a store

`grdb_chain_load` reads the transactions of a range out of the store and adds one after the other.
It is to take the longest part of the range that can be fetched and added. It does, except where the
part ends with the last number there is: the number then wraps, and the loop goes on at zero.
-/

namespace GradidoBlockchain

open Fallible Fallible.Call

/-- `grdb_chain_store`, what a chain reads of it: the transaction of a number, where there
is one to be read. -/
structure ChainStore where
  fetch : Option (Nat → Except ArnmResult CompleteTransaction)

variable {A : Arnm}

namespace Chain

/-! ### Loading -/

/-- What a load leaves, `loaded` among it. -/
structure Loaded (A : Arnm) where
  result : Except ArnmResult Unit
  loaded : Nat
  chain : Chain A
  room : Room

/-- The loop of `grdb_chain_load`, at most `fuel` rounds of it. -/
def loadRounds (fetch : Nat → Except ArnmResult CompleteTransaction) (toTxNr : Nat) :
    Nat → Nat → Nat → Chain A → Room → Option (Loaded A)
  | 0, _, _, _, _ => none
  | fuel + 1, number, count, chain, room =>
      if toTxNr ≠ 0 ∧ toTxNr < number then some ⟨.ok (), count, chain, room⟩
      else match fetch number with
        | .error code =>
            some ⟨if code = .arrayIndexOutOfBounds ∧ toTxNr = 0 then .ok () else .error code, count,
              chain, room⟩
        | .ok tx => match add tx chain room with
          | (.error code, left, rest) => some ⟨.error code, count, left, rest⟩
          | (.ok (), left, rest) =>
              loadRounds fetch toTxNr fuel ((number + 1) % 2 ^ 64) ((count + 1) % 2 ^ 64) left rest

/-- The number a load begins with. -/
def firstOf (fromTxNr : UInt64) : Nat := if fromTxNr = 0 then 1 else fromTxNr.toNat

/-- `grdb_chain_load`. A chain takes no more transactions than there are numbers, so the loop has
come to its end after `2 ^ 64` rounds. -/
def load (store : ChainStore) (fromTxNr toTxNr : UInt64) (chain : Chain A)
    (room : Room) : Option (Loaded A) :=
  if ¬chain.ready then some ⟨.error .invalidState, 0, chain, room⟩
  else match store.fetch with
    | none => some ⟨.error .invalidState, 0, chain, room⟩
    | some fetch =>
        if toTxNr ≠ 0 ∧ toTxNr.toNat < firstOf fromTxNr then
          some ⟨.error .invalidParam, 0, chain, room⟩
        else loadRounds fetch toTxNr.toNat (2 ^ 64) (firstOf fromTxNr) 0 chain room

/-! ### What a load is to do -/

/-- The transactions of the numbers from the first one on, so many of them, fetched and added
one after the other. -/
inductive Taken (fetch : Nat → Except ArnmResult CompleteTransaction) :
    Nat → Nat → Chain A → Room → Chain A → Room → Prop
  | none (number : Nat) (chain : Chain A) (room : Room) : Taken fetch number 0 chain room chain room
  | more {number count : Nat} {chain next left : Chain A} {room rest last : Room}
      {tx : CompleteTransaction} : number < 2 ^ 64 → fetch number = .ok tx →
      add tx chain room = (.ok (), next, rest) →
      Taken fetch (number + 1) count next rest left last →
      Taken fetch number (count + 1) chain room left last

/-- Why a load ends before `number`, and with what result. -/
inductive Ends (fetch : Nat → Except ArnmResult CompleteTransaction) (toTxNr number : Nat)
    (chain : Chain A) (room : Room) : Except ArnmResult Unit → Chain A → Room → Prop
  | reached : toTxNr ≠ 0 → number = toTxNr + 1 →
      Ends fetch toTxNr number chain room (.ok ()) chain room
  | storeEnded : toTxNr = 0 → (number < 2 ^ 64 → fetch number = .error .arrayIndexOutOfBounds) →
      Ends fetch toTxNr number chain room (.ok ()) chain room
  | notFetched {code : ArnmResult} : number < 2 ^ 64 → fetch number = .error code →
      (toTxNr = 0 → code ≠ .arrayIndexOutOfBounds) → (toTxNr ≠ 0 → number ≤ toTxNr) →
      Ends fetch toTxNr number chain room (.error code) chain room
  | refused {code : ArnmResult} {left : Chain A} {rest : Room} {tx : CompleteTransaction} :
      number < 2 ^ 64 → fetch number = .ok tx → add tx chain room = (.error code, left, rest) →
      (toTxNr ≠ 0 → number ≤ toTxNr) → Ends fetch toTxNr number chain room (.error code) left rest

/-- The longest part of the range that can be taken is in the chain, its length is reported, and the
result says why it ended. -/
def TakesLongest (fetch : Nat → Except ArnmResult CompleteTransaction) (number toTxNr : Nat)
    (chain : Chain A) (room : Room) (loaded : Loaded A) : Prop :=
  ∃ middle between, Taken fetch number loaded.loaded chain room middle between ∧
    (toTxNr ≠ 0 → number + loaded.loaded ≤ toTxNr + 1) ∧
    Ends fetch toTxNr (number + loaded.loaded) middle between loaded.result loaded.chain loaded.room

/-- Everything up to the last number there is has been taken, and the loop is not to
stop there of itself. -/
def Overruns (fetch : Nat → Except ArnmResult CompleteTransaction) (number toTxNr : Nat)
    (chain : Chain A) (room : Room) : Prop :=
  (∃ count middle between, Taken fetch number count chain room middle between ∧
      number + count = 2 ^ 64) ∧
    (toTxNr = 2 ^ 64 - 1 ∨ toTxNr = 0 ∧ fetch 0 ≠ .error .arrayIndexOutOfBounds)

/-! ### The rounds -/

section Rounds

variable {fetch : Nat → Except ArnmResult CompleteTransaction} {options : ChainOptions}
  {toTxNr number count fuel : Nat} {chain : Chain A} {room : Room}

/-- Every transaction that was added has been counted, in the chain and in the report. -/
theorem loadRounds_counts {loaded : Loaded A} (hsound : Sound options chain)
    (hcount : count ≤ chain.transactionCount)
    (hrun : loadRounds fetch toTxNr fuel number count chain room = some loaded) :
    Sound options loaded.chain ∧ chain.transactionCount ≤ loaded.chain.transactionCount ∧
      loaded.loaded + chain.transactionCount = count + loaded.chain.transactionCount := by
  induction fuel generalizing number count chain room with
  | zero => cases hrun
  | succ fuel ih =>
      rw [loadRounds] at hrun
      split at hrun
      · cases hrun
        exact ⟨hsound, le_rfl, rfl⟩
      split at hrun
      · cases hrun
        exact ⟨hsound, le_rfl, rfl⟩
      split at hrun
      · cases hrun
        have houtcome := add_outcome ‹_›
        rw [houtcome.count_error]
        exact ⟨hsound.outcome houtcome, le_rfl, rfl⟩
      · have houtcome := add_outcome ‹_›
        have hadded := hsound.count_ok houtcome
        have hnext := hsound.outcome houtcome
        have hbound := hnext.count_bound
        rw [Nat.mod_eq_of_lt (show count + 1 < 2 ^ 64 by omega)] at hrun
        obtain ⟨hlast, hle, hloaded⟩ := ih hnext (by omega) hrun
        exact ⟨hlast, by omega, by omega⟩

/-- With a round for every number the chain has not counted the loop comes to its end. -/
theorem loadRounds_returns (hsound : Sound options chain)
    (hfuel : 2 ^ 64 ≤ fuel + chain.transactionCount) :
    ∃ loaded, loadRounds fetch toTxNr fuel number count chain room = some loaded := by
  induction fuel generalizing number count chain room with
  | zero =>
      have hbound := hsound.count_bound
      omega
  | succ fuel ih =>
      rw [loadRounds]
      split
      · exact ⟨_, rfl⟩
      split
      · exact ⟨_, rfl⟩
      split
      · exact ⟨_, rfl⟩
      · have houtcome := add_outcome ‹_›
        have hadded := hsound.count_ok houtcome
        exact ih (hsound.outcome houtcome) (by omega)

/-- The loop looks at its count as little as at its fuel. -/
theorem loadRounds_alike {loaded other : Loaded A} {count' fuel' : Nat}
    (hrun : loadRounds fetch toTxNr fuel number count chain room = some loaded)
    (hother : loadRounds fetch toTxNr fuel' number count' chain room = some other) :
    loaded.result = other.result ∧ loaded.chain = other.chain ∧ loaded.room = other.room := by
  induction fuel generalizing number count count' fuel' chain room with
  | zero => cases hrun
  | succ fuel ih =>
      cases fuel' with
      | zero => cases hother
      | succ fuel' =>
          rw [loadRounds] at hrun hother
          split at hrun
          · rw [if_pos ‹_›] at hother
            cases hrun
            cases hother
            exact ⟨rfl, rfl, rfl⟩
          · rw [if_neg ‹_›] at hother
            rcases hfetch : fetch number with code | tx
            · rw [hfetch] at hrun hother
              cases hrun
              cases hother
              exact ⟨rfl, rfl, rfl⟩
            · rw [hfetch] at hrun hother
              rcases hadd : add tx chain room with ⟨code | _, left, rest⟩
              · simp only [hadd] at hrun hother
                cases hrun
                cases hother
                exact ⟨rfl, rfl, rfl⟩
              · simp only [hadd] at hrun hother
                exact ih hrun hother

/-- Where the end named is the last number there is, no number is past it. -/
theorem loadRounds_never_ok {loaded : Loaded A} (hlt : number < 2 ^ 64)
    (hrun : loadRounds fetch (2 ^ 64 - 1) fuel number count chain room =
      some loaded) : loaded.result ≠ .ok () := by
  induction fuel generalizing number count chain room with
  | zero => cases hrun
  | succ fuel ih =>
      rw [loadRounds, if_neg (by omega)] at hrun
      split at hrun
      · cases hrun
        rw [if_neg (by simp)]
        exact fun hcode => by cases hcode
      split at hrun
      · cases hrun
        exact fun hcode => by cases hcode
      · exact ih (Nat.mod_lt _ (by decide)) hrun

theorem Taken.le {middle : Chain A} {between : Room}
    (htaken : Taken fetch number count chain room middle between)
    (hle : number ≤ 2 ^ 64) : number + count ≤ 2 ^ 64 := by
  induction htaken with
  | none => exact hle
  | more hlt _ _ _ ih =>
      have := ih hlt
      omega

theorem Taken.sound {middle : Chain A} {between : Room}
    (htaken : Taken fetch number count chain room middle between) (hsound : Sound options chain) :
    Sound options middle ∧ middle.transactionCount = chain.transactionCount + count ∧
      middle.ready = chain.ready := by
  induction htaken with
  | none => exact ⟨hsound, rfl, rfl⟩
  | more _ _ hadd _ ih =>
      have houtcome := add_outcome hadd
      obtain ⟨hmiddle, hcount, hready⟩ := ih (hsound.outcome houtcome)
      rw [hsound.count_ok houtcome] at hcount
      exact ⟨hmiddle, by omega, hready.trans houtcome.ready⟩

/-- The rounds of what is taken, the counters read as they are kept. -/
theorem Taken.rounds {middle : Chain A} {between : Room} {start : Nat}
    (htaken : Taken fetch number count chain room middle between)
    (hto : toTxNr ≠ 0 → number + count ≤ toTxNr + 1) :
    loadRounds fetch toTxNr (count + fuel) (number % 2 ^ 64) (start % 2 ^ 64) chain room =
      loadRounds fetch toTxNr fuel ((number + count) % 2 ^ 64) ((start + count) % 2 ^ 64) middle
        between := by
  induction htaken generalizing start with
  | none => rw [Nat.zero_add, Nat.add_zero, Nat.add_zero]
  | @more number count _ _ _ _ _ _ _ hlt hfetch hadd _ ih =>
      rw [show count + 1 + fuel = count + fuel + 1 by omega, loadRounds, Nat.mod_eq_of_lt hlt,
        if_neg (by omega), hfetch]
      simp only [hadd]
      rw [Nat.mod_add_mod, ih (by omega), show number + 1 + count = number + (count + 1) by omega,
        show start + 1 + count = start + (count + 1) by omega]

/-- A loop that has come round to zero stops as it should just where the store, asked for that
number, says it has ended. -/
theorem loadRounds_wrapped {loaded : Loaded A} (hsound : Sound options chain)
    (hcount : count ≤ chain.transactionCount) (hto : toTxNr = 2 ^ 64 - 1 ∨ toTxNr = 0)
    (hrun : loadRounds fetch toTxNr (fuel + 1) 0 count chain room = some loaded) :
    loaded = ⟨.ok (), count, chain, room⟩ ↔
      toTxNr = 0 ∧ fetch 0 = .error .arrayIndexOutOfBounds := by
  rcases hto with rfl | rfl
  · refine iff_of_false ?_ fun h => absurd h.1 (by decide)
    rintro rfl
    exact loadRounds_never_ok (by decide) hrun rfl
  rw [loadRounds, if_neg (by simp)] at hrun
  rcases hfetch : fetch 0 with code | tx
  · rw [hfetch] at hrun
    simp only [Option.some.injEq, and_true] at hrun
    rw [← hrun]
    by_cases hcode : code = .arrayIndexOutOfBounds
    · simp [hcode]
    · simp [hcode]
  · refine iff_of_false ?_ fun h => by cases h.2
    rw [hfetch] at hrun
    rintro rfl
    rcases hadd : add tx chain room with ⟨code | _, next, rest⟩
    · simp only [hadd, Option.some.injEq] at hrun
      cases hrun
    · simp only [hadd] at hrun
      have houtcome := add_outcome hadd
      have hnext := hsound.outcome houtcome
      have hadded := hsound.count_ok houtcome
      have hbound := hnext.count_bound
      rw [Nat.mod_eq_of_lt (show count + 1 < 2 ^ 64 by omega)] at hrun
      have hle := (loadRounds_counts hnext (by omega) hrun).2.1
      change next.transactionCount ≤ chain.transactionCount at hle
      omega

/-- The round that ends the loop. -/
theorem Ends.round {left : Chain A} {rest : Room} {result : Except ArnmResult Unit}
    (hends : Ends fetch toTxNr number chain room result left rest) (hlt : number < 2 ^ 64) :
    loadRounds fetch toTxNr (fuel + 1) number count chain room =
      some ⟨result, count, left, rest⟩ := by
  rw [loadRounds]
  cases hends with
  | reached hne heq => rw [if_pos ⟨hne, by omega⟩]
  | storeEnded hopen hfetch =>
      rw [if_neg fun h => h.1 hopen, hfetch hlt]
      simp only [hopen, and_self, if_true]
  | notFetched _ hfetch hcode hto =>
      rw [if_neg fun h => absurd (hto h.1) (by omega), hfetch]
      simp only
      rw [if_neg fun h => hcode h.2 h.1]
  | refused _ hfetch hadd hto =>
      rw [if_neg fun h => absurd (hto h.1) (by omega), hfetch]
      simp only [hadd]

end Rounds

/-! ### The longest part -/

section Longest

variable {fetch : Nat → Except ArnmResult CompleteTransaction} {options : ChainOptions}
  {toTxNr number count : Nat} {chain : Chain A} {room : Room}

/-- Past the last number there is the load has come to the end it was given. -/
theorem Ends.past {left : Chain A} {rest : Room} {result : Except ArnmResult Unit}
    (hends : Ends fetch toTxNr number chain room result left rest) (hge : 2 ^ 64 ≤ number) :
    result = .ok () ∧ left = chain ∧ rest = room := by
  cases hends with
  | reached => exact ⟨rfl, rfl, rfl⟩
  | storeEnded => exact ⟨rfl, rfl, rfl⟩
  | notFetched hlt => exact absurd hlt (Nat.not_lt_of_le hge)
  | refused hlt => exact absurd hlt (Nat.not_lt_of_le hge)

theorem Ends.unique {left left' : Chain A} {rest rest' : Room}
    {result result' : Except ArnmResult Unit}
    (hends : Ends fetch toTxNr number chain room result left rest)
    (hother : Ends fetch toTxNr number chain room result' left' rest') :
    result = result' ∧ left = left' ∧ rest = rest' := by
  by_cases hlt : number < 2 ^ 64
  · have hround : loadRounds fetch toTxNr 1 number 0 chain room = some ⟨result, 0, left, rest⟩ :=
      hends.round hlt
    rw [hother.round hlt] at hround
    cases hround
    exact ⟨rfl, rfl, rfl⟩
  · obtain ⟨rfl, rfl, rfl⟩ := hends.past (Nat.le_of_not_lt hlt)
    obtain ⟨rfl, rfl, rfl⟩ := hother.past (Nat.le_of_not_lt hlt)
    exact ⟨rfl, rfl, rfl⟩

/-- A load that succeeds with an end named has come to it. -/
theorem Ends.reached_of_ok {left : Chain A} {rest : Room}
    (hends : Ends fetch toTxNr number chain room (.ok ()) left rest) (hne : toTxNr ≠ 0) :
    number = toTxNr + 1 ∧ left = chain ∧ rest = room := by
  cases hends with
  | reached _ heq => exact ⟨heq, rfl, rfl⟩
  | storeEnded hopen => exact absurd hopen hne

/-- Where the load ends no further transaction of the range can be taken. -/
theorem Ends.not_taken {left next : Chain A} {rest after : Room} {result : Except ArnmResult Unit}
    {tx : CompleteTransaction} (hends : Ends fetch toTxNr number chain room result left rest)
    (hfetch : fetch number = .ok tx) (hadd : add tx chain room = (.ok (), next, after))
    (hlt : number < 2 ^ 64) (hto : toTxNr ≠ 0 → number ≤ toTxNr) : False := by
  cases hends with
  | reached hne heq => exact absurd (hto hne) (by omega)
  | storeEnded _ hended =>
      rw [hended hlt] at hfetch
      cases hfetch
  | notFetched _ hfailed =>
      rw [hfailed] at hfetch
      cases hfetch
  | refused _ hother hrefused =>
      rw [hother] at hfetch
      cases hfetch
      rw [hrefused] at hadd
      cases hadd

/-- Nothing more of the range can be taken than what ends so. -/
theorem Taken.le_longest {count' : Nat} {middle left middle' : Chain A}
    {between rest between' : Room} {result : Except ArnmResult Unit}
    (htaken : Taken fetch number count chain room middle between)
    (hends : Ends fetch toTxNr (number + count) middle between result left rest)
    (hother : Taken fetch number count' chain room middle' between')
    (hto : toTxNr ≠ 0 → number + count' ≤ toTxNr + 1) : count' ≤ count := by
  induction htaken generalizing count' with
  | none =>
      cases hother with
      | none => exact le_rfl
      | more hlt hfetch hadd => exact (hends.not_taken hfetch hadd hlt (by omega)).elim
  | @more number count _ _ _ _ _ _ _ hlt hfetch hadd _ ih =>
      cases hother with
      | none => exact Nat.zero_le _
      | @more _ count' _ _ _ _ _ _ _ _ hfetch' hadd' hrest =>
          rw [hfetch] at hfetch'
          cases hfetch'
          rw [hadd] at hadd'
          cases hadd'
          have hle :=
            ih (by rw [show number + 1 + count = number + (count + 1) by omega]; exact hends) hrest
              (by omega)
          omega

theorem Taken.unique {middle middle' : Chain A} {between between' : Room}
    (htaken : Taken fetch number count chain room middle between)
    (hother : Taken fetch number count chain room middle' between') :
    middle = middle' ∧ between = between' := by
  induction htaken with
  | none =>
      cases hother
      exact ⟨rfl, rfl⟩
  | more _ hfetch hadd _ ih =>
      cases hother with
      | more _ hfetch' hadd' hrest =>
          rw [hfetch] at hfetch'
          cases hfetch'
          rw [hadd] at hadd'
          cases hadd'
          exact ih hrest

theorem TakesLongest.unique {loaded other : Loaded A}
    (hloaded : TakesLongest fetch number toTxNr chain room loaded)
    (hother : TakesLongest fetch number toTxNr chain room other) : loaded = other := by
  obtain ⟨middle, between, htaken, hto, hends⟩ := hloaded
  obtain ⟨middle', between', htaken', hto', hends'⟩ := hother
  have hcount : loaded.loaded = other.loaded :=
    Nat.le_antisymm (htaken'.le_longest hends' htaken hto) (htaken.le_longest hends htaken' hto')
  rw [← hcount] at htaken' hends'
  obtain ⟨rfl, rfl⟩ := htaken.unique htaken'
  obtain ⟨hresult, hchain, hroom⟩ := hends.unique hends'
  obtain ⟨_, _, _, _⟩ := loaded
  obtain ⟨_, _, _, _⟩ := other
  cases hcount
  cases hresult
  cases hchain
  cases hroom
  rfl

/-- There is a longest part of every range. -/
theorem exists_takesLongest (hle : number ≤ 2 ^ 64) (hlast : toTxNr < 2 ^ 64)
    (hto : toTxNr ≠ 0 → number ≤ toTxNr + 1) :
    ∃ loaded, TakesLongest fetch number toTxNr chain room loaded := by
  have hnone : ∀ {result left rest}, Ends fetch toTxNr number chain room result left rest →
      ∃ loaded, TakesLongest fetch number toTxNr chain room loaded :=
    fun {result left rest} hends => ⟨⟨result, 0, left, rest⟩, chain, room, .none .., hto, hends⟩
  induction hdistance : 2 ^ 64 - number generalizing number chain room with
  | zero =>
      by_cases hopen : toTxNr = 0
      · exact hnone (.storeEnded hopen fun hlt => absurd hlt (by omega))
      · exact hnone (.reached hopen (by omega))
  | succ distance ih =>
      have hlt : number < 2 ^ 64 := by omega
      by_cases hpast : toTxNr ≠ 0 ∧ toTxNr < number
      · exact hnone (.reached hpast.1 (by omega))
      have hwithin : toTxNr ≠ 0 → number ≤ toTxNr :=
        fun hne => Nat.le_of_not_lt fun h => hpast ⟨hne, h⟩
      rcases hfetch : fetch number with code | tx
      · by_cases hended : toTxNr = 0 ∧ code = .arrayIndexOutOfBounds
        · exact hnone (.storeEnded hended.1 fun _ => hended.2 ▸ hfetch)
        · exact hnone (.notFetched hlt hfetch (fun hopen hcode => hended ⟨hopen, hcode⟩) hwithin)
      rcases hadd : add tx chain room with ⟨code | _, next, rest⟩
      · exact hnone (.refused hlt hfetch hadd hwithin)
      have hnext : toTxNr ≠ 0 → number + 1 ≤ toTxNr + 1 := fun hne => Nat.succ_le_succ (hwithin hne)
      obtain ⟨loaded, middle, between, htaken, hbound, hends⟩ :=
        ih (show number + 1 ≤ 2 ^ 64 by omega) hnext
          (fun {result left last} hends => ⟨⟨result, 0, left, last⟩, next, rest, .none .., hnext,
            hends⟩) (by omega)
      refine ⟨⟨loaded.result, loaded.loaded + 1, loaded.chain, loaded.room⟩, middle, between,
        .more hlt hfetch hadd htaken, ?_, ?_⟩
      · change toTxNr ≠ 0 → number + (loaded.loaded + 1) ≤ toTxNr + 1
        omega
      · change Ends fetch toTxNr (number + (loaded.loaded + 1)) middle between loaded.result
          loaded.chain loaded.room
        rwa [show number + (loaded.loaded + 1) = number + 1 + loaded.loaded by omega]

end Longest

/-! ### Loads -/

section Loads

variable {fetch : Nat → Except ArnmResult CompleteTransaction} {options : ChainOptions}
  {fromTxNr toTxNr : UInt64} {chain : Chain A} {room : Room}

/-- What a load of `[fromTxNr, toTxNr]` is to leave. -/
def LoadsAsDocumented (fetch : Nat → Except ArnmResult CompleteTransaction)
    (fromTxNr toTxNr : UInt64) (chain : Chain A) (room : Room) (loaded : Loaded A) : Prop :=
  if toTxNr ≠ 0 ∧ toTxNr.toNat < firstOf fromTxNr then
    loaded = ⟨.error .invalidParam, 0, chain, room⟩
  else TakesLongest fetch (firstOf fromTxNr) toTxNr.toNat chain room loaded

theorem firstOf_pos (fromTxNr : UInt64) : 1 ≤ firstOf fromTxNr := by
  rw [firstOf]
  split
  · exact le_rfl
  · have hne : fromTxNr.toNat ≠ 0 := fun h => ‹¬_› (UInt64.toNat_inj.1 h)
    omega

theorem firstOf_lt (fromTxNr : UInt64) : firstOf fromTxNr < 2 ^ 64 := by
  rw [firstOf]
  split
  · decide
  · exact fromTxNr.toNat_lt

theorem toNat_ne_zero {number : UInt64} : number.toNat ≠ 0 ↔ number ≠ 0 :=
  not_congr ⟨fun h => UInt64.toNat_inj.1 h, fun h => congrArg UInt64.toNat h⟩

theorem load_rounds (hready : chain.ready = true)
    (hforward : ¬(toTxNr ≠ 0 ∧ toTxNr.toNat < firstOf fromTxNr)) :
    load ⟨some fetch⟩ fromTxNr toTxNr chain room =
      loadRounds fetch toTxNr.toNat (2 ^ 64) (firstOf fromTxNr) 0 chain room := by
  rw [load, if_neg (by simp [hready])]
  exact if_neg hforward

/-- The loop takes the longest part of its range just when it does not run over the last number. -/
theorem loadRounds_longest_iff {number last : Nat} (hsound : Sound options chain)
    (hpos : 1 ≤ number) (hlt : number < 2 ^ 64) (hlast : last < 2 ^ 64)
    (hto : last ≠ 0 → number ≤ last + 1) :
    ∃ loaded, loadRounds fetch last (2 ^ 64) number 0 chain room = some loaded ∧
      (TakesLongest fetch number last chain room loaded ↔
        ¬Overruns fetch number last chain room) := by
  obtain ⟨loaded, hrun⟩ : ∃ loaded,
      loadRounds fetch last (2 ^ 64) number 0 chain room = some loaded :=
    loadRounds_returns hsound (by omega)
  obtain ⟨longest, hlongest⟩ : ∃ longest, TakesLongest fetch number last chain room longest :=
    exists_takesLongest (by omega) hlast hto
  have hsame : TakesLongest fetch number last chain room loaded ↔ loaded = longest :=
    ⟨fun h => h.unique hlongest, fun h => h ▸ hlongest⟩
  refine ⟨loaded, hrun, hsame.trans ?_⟩
  obtain ⟨middle, between, htaken, hbound, hends⟩ := hlongest
  have hle := htaken.le (by omega)
  obtain ⟨fuel, hfuel⟩ : ∃ fuel, 2 ^ 64 = longest.loaded + (fuel + 1) :=
    ⟨2 ^ 64 - longest.loaded - 1, by omega⟩
  -- The rounds up to the end of the part, and the loop where they leave it.
  have hrest : loadRounds fetch last (fuel + 1) ((number + longest.loaded) % 2 ^ 64) longest.loaded
        middle between = some loaded := by
    have hrounds : loadRounds fetch last (longest.loaded + (fuel + 1)) (number % 2 ^ 64)
          (0 % 2 ^ 64) chain room =
        loadRounds fetch last (fuel + 1) ((number + longest.loaded) % 2 ^ 64)
          ((0 + longest.loaded) % 2 ^ 64) middle between := htaken.rounds hbound
    rw [← hfuel, Nat.mod_eq_of_lt hlt, Nat.zero_mod, Nat.zero_add,
      Nat.mod_eq_of_lt (show longest.loaded < 2 ^ 64 by omega)] at hrounds
    rw [← hrounds, hrun]
  by_cases hshort : number + longest.loaded < 2 ^ 64
  · rw [Nat.mod_eq_of_lt hshort, hends.round hshort] at hrest
    cases hrest
    refine iff_of_true rfl ?_
    rintro ⟨⟨count, middle', between', htaken', hcount⟩, hover⟩
    have hmore : count ≤ longest.loaded := htaken.le_longest hends htaken' (by omega)
    omega
  have hwhole : number + longest.loaded = 2 ^ 64 := by omega
  obtain ⟨result, count, left, rest⟩ := longest
  obtain ⟨rfl, rfl, rfl⟩ := hends.past (by omega)
  change number + count = 2 ^ 64 at hwhole
  change loadRounds fetch last (fuel + 1) ((number + count) % 2 ^ 64) count left rest =
    some loaded at hrest
  rw [hwhole, Nat.mod_self] at hrest
  have hend : last = 2 ^ 64 - 1 ∨ last = 0 := by
    by_cases hopen : last = 0
    · exact .inr hopen
    · have hle : number + count ≤ last + 1 := hbound hopen
      exact .inl (by omega)
  obtain ⟨hmiddle, hcount, -⟩ := htaken.sound hsound
  have hcounted : count ≤ left.transactionCount := hcount.symm ▸ Nat.le_add_left ..
  rw [loadRounds_wrapped hmiddle hcounted hend hrest]
  constructor
  · rintro ⟨hopen, hzero⟩ ⟨-, hover⟩
    exact hover.elim (fun h => absurd h (by omega)) fun h => h.2 hzero
  · intro hover
    have hopen : last = 0 :=
      hend.resolve_left fun h => hover ⟨⟨count, left, rest, htaken, hwhole⟩, .inl h⟩
    refine ⟨hopen,
      by_contra fun hzero => hover ⟨⟨count, left, rest, htaken, hwhole⟩, .inr ⟨hopen, hzero⟩⟩⟩

/-- A load to `mid` that reached it and a load of what comes after it do what one load does. -/
theorem load_append {midTxNr : UInt64} {first : Loaded A} (hsound : Sound options chain)
    (hready : chain.ready = true) (hmid : firstOf fromTxNr ≤ midTxNr.toNat) (hlt : midTxNr < toTxNr)
    (hfirst : load ⟨some fetch⟩ fromTxNr midTxNr chain room = some first)
    (hreached : first.result = .ok ()) :
    ∃ second, load ⟨some fetch⟩ (midTxNr + 1) toTxNr first.chain first.room = some second ∧
      load ⟨some fetch⟩ fromTxNr toTxNr chain room =
        some ⟨second.result, first.loaded + second.loaded, second.chain, second.room⟩ := by
  have hpos := firstOf_pos fromTxNr
  have hltNat : midTxNr.toNat < toTxNr.toNat := UInt64.lt_iff_toNat_lt.1 hlt
  have hto := toTxNr.toNat_lt
  have hnext : (midTxNr + 1).toNat = midTxNr.toNat + 1 := by
    rw [UInt64.toNat_add]
    exact Nat.mod_eq_of_lt (by change midTxNr.toNat + 1 < 2 ^ 64; omega)
  have hfrom : firstOf (midTxNr + 1) = midTxNr.toNat + 1 := by
    rw [firstOf, if_neg (toNat_ne_zero.1 (by omega)), hnext]
  rw [load_rounds hready (by omega)] at hfirst
  -- The first load has taken all of its range.
  obtain ⟨loaded, hrun, hlongest⟩ : ∃ loaded,
      loadRounds fetch midTxNr.toNat (2 ^ 64) (firstOf fromTxNr) 0 chain room = some loaded ∧ _ :=
    loadRounds_longest_iff hsound hpos (firstOf_lt fromTxNr) midTxNr.toNat_lt (by omega)
  rw [hfirst] at hrun
  cases hrun
  obtain ⟨middle, between, htaken, hbound, hends⟩ :=
    hlongest.2 fun hover => absurd hover.2 (by omega)
  rw [hreached] at hends
  obtain ⟨hend, rfl, rfl⟩ := hends.reached_of_ok (by omega)
  obtain ⟨hmiddle, hcount, hstill⟩ := htaken.sound hsound
  rw [load_rounds (hstill.trans hready) (by omega), hfrom]
  obtain ⟨second, hsecond⟩ : ∃ second, loadRounds fetch toTxNr.toNat (2 ^ 64) (midTxNr.toNat + 1) 0
        first.chain first.room = some second := loadRounds_returns hmiddle (by omega)
  refine ⟨second, hsecond, ?_⟩
  -- One load goes the same way and is then where the second one begins, with a count of its own.
  obtain ⟨fuel, hfuel⟩ : ∃ fuel, 2 ^ 64 = first.loaded + fuel := ⟨2 ^ 64 - first.loaded, by omega⟩
  have hrounds : loadRounds fetch toTxNr.toNat (first.loaded + fuel) (firstOf fromTxNr % 2 ^ 64)
        (0 % 2 ^ 64) chain room =
      loadRounds fetch toTxNr.toNat fuel ((firstOf fromTxNr + first.loaded) % 2 ^ 64)
        ((0 + first.loaded) % 2 ^ 64) first.chain first.room := htaken.rounds fun _ => by omega
  rw [← hfuel, hend, Nat.zero_mod, Nat.zero_add, Nat.mod_eq_of_lt (firstOf_lt fromTxNr),
    Nat.mod_eq_of_lt (show midTxNr.toNat + 1 < 2 ^ 64 by omega),
    Nat.mod_eq_of_lt (show first.loaded < 2 ^ 64 by omega)] at hrounds
  rw [load_rounds hready (by omega), hrounds]
  have hfits : 2 ^ 64 ≤ fuel + first.chain.transactionCount := by omega
  obtain ⟨whole, hwhole⟩ : ∃ whole, loadRounds fetch toTxNr.toNat fuel (midTxNr.toNat + 1)
        first.loaded first.chain first.room = some whole := loadRounds_returns hmiddle hfits
  obtain ⟨hresult, hchain, hroom⟩ := loadRounds_alike hwhole hsecond
  have hcounted :=
    (loadRounds_counts hmiddle (show first.loaded ≤ first.chain.transactionCount by omega)
      hwhole).2.2
  have hcounted' := (loadRounds_counts hmiddle (Nat.zero_le _) hsecond).2.2
  rw [hwhole]
  obtain ⟨_, loaded, _, _⟩ := whole
  cases hresult
  cases hchain
  cases hroom
  have hsum : loaded = first.loaded + second.loaded := by
    change loaded + first.chain.transactionCount =
      first.loaded + second.chain.transactionCount at hcounted
    omega
  rw [hsum]

/-- Whatever the store holds, a load takes the longest part of its range that can be fetched and
added, reports its length and succeeds just when nothing is missing, unless it runs over the last
number there is; and loads put together do what one load does. -/
theorem Reachable.load_longest_iff (hreachable : Reachable options chain)
    (fetch : Nat → Except ArnmResult CompleteTransaction) (fromTxNr toTxNr : UInt64) (room : Room) :
    (∃ loaded, load ⟨some fetch⟩ fromTxNr toTxNr chain room = some loaded ∧
        (LoadsAsDocumented fetch fromTxNr toTxNr chain room loaded ↔
          ¬Overruns fetch (firstOf fromTxNr) toTxNr.toNat chain room)) ∧
      ∀ midTxNr first, firstOf fromTxNr ≤ midTxNr.toNat → midTxNr < toTxNr →
        load ⟨some fetch⟩ fromTxNr midTxNr chain room = some first → first.result = .ok () →
        ∃ second, load ⟨some fetch⟩ (midTxNr + 1) toTxNr first.chain first.room = some second ∧
          load ⟨some fetch⟩ fromTxNr toTxNr chain room =
            some ⟨second.result, first.loaded + second.loaded, second.chain, second.room⟩ := by
  refine ⟨?_, fun midTxNr first hmid hlt hfirst hreached =>
    load_append hreachable.sound hreachable.ready hmid hlt hfirst hreached⟩
  by_cases hback : toTxNr ≠ 0 ∧ toTxNr.toNat < firstOf fromTxNr
  · refine ⟨⟨.error .invalidParam, 0, chain, room⟩, ?_, ?_⟩
    · rw [load, if_neg (by simp [hreachable.ready])]
      exact if_pos hback
    · rw [LoadsAsDocumented, if_pos hback]
      have hfrom := firstOf_lt fromTxNr
      have hne := toNat_ne_zero.2 hback.1
      exact iff_of_true rfl fun hover => absurd hover.2 (by omega)
  · obtain ⟨loaded, hrun, hlongest⟩ : ∃ loaded, loadRounds fetch toTxNr.toNat (2 ^ 64)
            (firstOf fromTxNr) 0 chain room = some loaded ∧ _ :=
      loadRounds_longest_iff hreachable.sound (firstOf_pos fromTxNr) (firstOf_lt fromTxNr)
        toTxNr.toNat_lt fun hne =>
        Nat.le_succ_of_le (Nat.le_of_not_lt fun h => hback ⟨toNat_ne_zero.1 hne, h⟩)
    refine ⟨loaded, by rw [load_rounds hreachable.ready hback, hrun], ?_⟩
    rwa [LoadsAsDocumented, if_neg hback]

/-- A store of these transactions. -/
def stored (txs : List CompleteTransaction) (number : Nat) :
    Except ArnmResult CompleteTransaction :=
  match txs.find? fun tx => tx.nr = number with
  | some tx => .ok tx
  | none => .error .arrayIndexOutOfBounds

theorem Reachable.load_longest_iff_threeDays :
    (∃ loaded, load ⟨some (stored threeDays)⟩ 0 0 (fresh (segmentsOf 1) : Chain Arnm.reference) [] =
          some loaded ∧
        (LoadsAsDocumented (stored threeDays) 0 0 (fresh (segmentsOf 1)) [] loaded ↔
          ¬Overruns (stored threeDays) (firstOf 0) (0 : UInt64).toNat
            (fresh (segmentsOf 1) : Chain Arnm.reference) [])) ∧
      ∃ first second, load ⟨some (stored threeDays)⟩ 0 1
            (fresh (segmentsOf 1) : Chain Arnm.reference) [] = some first ∧
        load ⟨some (stored threeDays)⟩ (1 + 1) 3 first.chain first.room = some second ∧
        load ⟨some (stored threeDays)⟩ 0 3 (fresh (segmentsOf 1) : Chain Arnm.reference) [] =
          some ⟨second.result, first.loaded + second.loaded, second.chain, second.room⟩ := by
  have hreachable : Reachable (segmentsOf 1) (fresh (segmentsOf 1) : Chain Arnm.reference) :=
    reachable_fresh _
  refine ⟨(hreachable.load_longest_iff (stored threeDays) 0 0 []).1, ?_⟩
  have hran : (load ⟨some (stored threeDays)⟩ 0 1 (fresh (segmentsOf 1) : Chain Arnm.reference)
        []).map Loaded.result = some (.ok ()) := by decide +kernel
  obtain ⟨first, hfirst, hreached⟩ := Option.map_eq_some_iff.1 hran
  obtain ⟨second, hsecond, hwhole⟩ :=
    (hreachable.load_longest_iff (stored threeDays) 0 3 []).2 1 first (by decide) (by decide) hfirst
      hreached
  exact ⟨first, second, hfirst, hsecond, hwhole⟩

/-- The last number there is. -/
def lastNr : UInt64 := 0xFFFFFFFFFFFFFFFF

/-- The store holds the one transaction the load names, which has the last number: the load takes it
and says that something was missing. -/
theorem load_not_longest_last :
    ∃ loaded, load ⟨some (stored [.bare lastNr 0])⟩ lastNr lastNr
          (fresh (segmentsOf 1) : Chain Arnm.reference) [] = some loaded ∧
      loaded.result = .error .arrayIndexOutOfBounds ∧ loaded.loaded = 1 ∧
      ¬LoadsAsDocumented (stored [.bare lastNr 0]) lastNr lastNr (fresh (segmentsOf 1)) []
        loaded := by
  have hran : (load ⟨some (stored [.bare lastNr 0])⟩ lastNr lastNr
        (fresh (segmentsOf 1) : Chain Arnm.reference) []).map
        (fun loaded => (loaded.result, loaded.loaded)) =
      some (.error .arrayIndexOutOfBounds, 1) := by decide +kernel
  obtain ⟨loaded, hloaded, hleft⟩ := Option.map_eq_some_iff.1 hran
  obtain ⟨hresult, hcount⟩ := Prod.mk.inj hleft
  refine ⟨loaded, hloaded, hresult, hcount, fun hlongest => ?_⟩
  have hforward : ¬(lastNr ≠ 0 ∧ lastNr.toNat < firstOf lastNr) := by decide +kernel
  have hpast : ¬firstOf lastNr + 1 < 2 ^ 64 := by decide +kernel
  rw [LoadsAsDocumented, if_neg hforward] at hlongest
  obtain ⟨middle, between, -, -, hends⟩ := hlongest
  rw [hresult, hcount] at hends
  cases hends with
  | notFetched hlt => exact hpast hlt
  | refused hlt => exact hpast hlt

end Loads

end Chain

end GradidoBlockchain
