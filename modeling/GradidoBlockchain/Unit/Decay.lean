import GradidoBlockchain.Unit.Division

/-!
# The decay of an amount

`grdd_unit_calculate_decay` and its windowed variant. Whole years are a shift, the seconds that
remain are a product of factors, and a negative duration divides by that product.
-/

namespace GradidoBlockchain

namespace GrddUnit

/-- `SECONDS_PER_YEAR`. -/
def secondsPerYear : Int64 := 31556952

/-- `DECAY_POWERS`. -/
def decayPowers : List UInt64 :=
  [
    18446743668527564940, 18446743263345587163, 18446742452981658309, 18446740832253907398,
    18446737590798832767, 18446731107890392267, 18446718142080346313, 18446692210487594564,
    18446640347411451525, 18446536621696605848, 18446329172016664620, 18445914279655690837,
    18445084522928643346, 18443425121448271984, 18440106766335414243, 18433471847125226169,
    18420209169759874097, 18393712435208807257, 18340833254760868098, 18235530516106764452,
    18026735334708307356, 17616289656815978922, 16823221487369777986, 15342587292489394070,
    12760787697116905635, 8827449548832185865, 4224261215193812073, 967345930690427918,
    50727550937131514, 139498028150492, 1054912443, 0]

/-- `DECAY_WINDOW_FACTORS`. -/
def decayWindowFactors : List (List UInt64) :=
  [
    [
      0, 18446743668527564940, 18446743263345587163, 18446742858163618286,
      18446742452981658309, 18446742047799707232, 18446741642617765054, 18446741237435831776,
      18446740832253907398, 18446740427071991920, 18446740021890085341, 18446739616708187663,
      18446739211526298884, 18446738806344419006, 18446738401162548026, 18446737995980685947,
      18446737590798832767, 18446737185616988487, 18446736780435153107, 18446736375253326627,
      18446735970071509047, 18446735564889700367, 18446735159707900586, 18446734754526109705,
      18446734349344327723, 18446733944162554642, 18446733538980790460, 18446733133799035179,
      18446732728617288797, 18446732323435551316, 18446731918253822732, 18446731513072103050],
    [
      0, 18446731107890392267, 18446718142080346313, 18446705176279413747,
      18446692210487594564, 18446679244704888756, 18446666278931296319, 18446653313166817243,
      18446640347411451525, 18446627381665199157, 18446614415928060133, 18446601450200034445,
      18446588484481122090, 18446575518771323058, 18446562553070637346, 18446549587379064944,
      18446536621696605848, 18446523656023260051, 18446510690359027547, 18446497724703908328,
      18446484759057902390, 18446471793421009725, 18446458827793230328, 18446445862174564189,
      18446432896565011306, 18446419930964571671, 18446406965373245277, 18446393999791032116,
      18446381034217932186, 18446368068653945477, 18446355103099071985, 18446342137553311701],
    [
      0, 18446329172016664620, 18445914279655690837, 18445499396626420375,
      18445084522928643346, 18444669658562149868, 18444254803526730063, 18443839957822174058,
      18443425121448271984, 18443010294404813977, 18442595476691590178, 18442180668308390734,
      18441765869255005793, 18441351079531225511, 18440936299136840048, 18440521528071639569,
      18440106766335414243, 18439692013927954243, 18439277270849049749, 18438862537098490943,
      18438447812676068014, 18438033097581571155, 18437618391814790563, 18437203695375516440,
      18436789008263538994, 18436374330478648436, 18435959662020634982, 18435545002889288855,
      18435130353084400278, 18434715712605759483, 18434301081453156706, 18433886459626382186],
    [
      0, 18433471847125226169, 18420209169759874097, 18406956034742938873,
      18393712435208807257, 18380478364296805743, 18367253815151197000, 18354038780921176327,
      18340833254760868098, 18327637229829322220, 18314450699290510586, 18301273656313323535,
      18288106094071566313, 18274948005743955540, 18261799384514115668, 18248660223570575459,
      18235530516106764452, 18222410255321009437, 18209299434416530932, 18196198046601439662,
      18183106085088733040, 18170023543096291654, 18156950413846875747, 18143886690568121716,
      18130832366492538593, 18117787434857504547, 18104751888905263377, 18091725721882921013,
      18078708927042442016, 18065701497640646084, 18052703426939204557, 18039714708204636929],
    [
      0, 18026735334708307356, 17616289656815978922, 17215189301377912781,
      16823221487369777986, 16440178278518672654, 16065856472994338283, 15700057495611963861,
      15342587292489394070, 14993256228102857962, 14651878984686606850, 14318274463923093616,
      13992265690871540739, 13673679720083931792, 13362347543858621587, 13058104002582894116,
      12760787697116905635, 12470240903172533159, 12186309487641706924, 11908842826829839573,
      11637693726550975433, 11372718344042270932, 11113776111656382281, 10860729662291279777,
      10613444756517929730, 10371790211367185761, 10135637830738111368, 9904862337390815887,
      9679341306487726470, 9458955100648040196, 9243586806480903142, 9033122172563647674]]

/-- `DECAY_WINDOW_BITS`. -/
def decayWindowBits : ℕ := 5

/-- `DECAY_WINDOWS`. -/
def decayWindows : ℕ := 5

/-- What stops a run besides an answer: the assertion on the amount, and a read past the end
of `DECAY_POWERS`. -/
inductive Fault
  | assertion
  | index (i : ℕ)
  deriving DecidableEq, Repr

def maxAmount : Int64 := 0x7fffffffffffffff

/-! ### The bit chain -/

/-- A read of `DECAY_POWERS[i]`, as a factor. -/
def readPower (i : ℕ) : Except Fault R128 :=
  match decayPowers[i]? with
  | some power => .ok ⟨power, 0⟩
  | none => .error (.index i)

/-- The loop over the bits of the exponent. An exponent has 64 bits, so that as many rounds
bring it down to zero. -/
def decayLoop : ℕ → ℕ → ℕ → R128 → Except Fault R128
  | 0, _, _, factor => .ok factor
  | rounds + 1, exp, i, factor =>
    if 0 < exp then
      if exp % 2 = 1 then
        match readPower i with
        | .ok power => decayLoop rounds (exp / 2) (i + 1) (R128.mulSpecializedFactor factor power)
        | .error fault => .error fault
      else decayLoop rounds (exp / 2) (i + 1) factor
    else .ok factor

/-- The exponent of the chain: the duration without its sign. -/
def exponent (duration : Int64) : ℕ :=
  (if duration < 0 then -duration.toUInt64 else duration.toUInt64).toNat

/-- The product of the powers that the bits of the duration select. -/
def decayFactor (duration : Int64) : Except Fault R128 :=
  decayLoop 64 (exponent duration) 0 R128.one

/-- The amount times the factor, rounded to a whole number. -/
def applyFactor (amount : Int64) (factor : R128) : Int64 :=
  (R128.mulPrecise (R128.fromInt amount) factor).round.toInt

/-- The part of `grdd_unit_calculate_decay` after the whole years, for the amount
`temp` they leave. -/
def decaySeconds (gdd temp duration : Int64) : Except Fault Int64 :=
  match decayFactor duration with
  | .error fault => .error fault
  | .ok factor =>
    if duration < 0 then
      let decayed := applyFactor temp (R128.div R128.one factor)
      .ok (if 0 < gdd ∧ decayed < 0 then maxAmount else decayed)
    else .ok (applyFactor temp factor)

/-- The number of whole years. -/
def wholeYears (duration : Int64) : UInt64 := (duration / secondsPerYear).toUInt64

/-- The seconds after the whole years. -/
def remainder (duration : Int64) : Int64 :=
  duration - (wholeYears duration).toInt64 * secondsPerYear

/-- `gdd >> times`. -/
def halved (gdd : Int64) (times : UInt64) : Int64 := .ofInt (gdd.toInt >>> times.toNat)

/-- `grdd_unit_calculate_decay`. -/
def calculateDecay (gdd duration : Int64) : Except Fault Int64 :=
  if duration = 0 then .ok gdd
  else if gdd < 0 then .error .assertion
  else if secondsPerYear ≤ duration then
    if 63 < wholeYears duration then .ok 0
    else if remainder duration = 0 then .ok (halved gdd (wholeYears duration))
    else decaySeconds gdd (halved gdd (wholeYears duration)) (remainder duration)
  else decaySeconds gdd gdd duration

/-! ### The windows -/

/-- A read of `DECAY_WINDOW_FACTORS[window][digit]`, which the bounds of the loop and the mask of
the digit keep inside the table. -/
def readWindow (window digit : ℕ) : R128 := ⟨(decayWindowFactors.getD window []).getD digit 0, 0⟩

/-- The loop over the windows, with `windows` of them to come. -/
def windowLoop : ℕ → ℕ → ℕ → R128 → R128
  | 0, _, _, factor => factor
  | windows + 1, window, remainder, factor =>
    let digit := remainder / 2 ^ (window * decayWindowBits) % 2 ^ decayWindowBits
    windowLoop windows (window + 1) remainder
      (if digit = 0 then factor else R128.mulSpecializedFactor factor (readWindow window digit))

/-- The product of the window factors of the seconds. -/
def windowFactor (duration : Int64) : R128 :=
  windowLoop decayWindows 0 duration.toUInt64.toNat R128.one

/-- `grdd_unit_calculate_decay_windowed`. -/
def calculateDecayWindowed (gdd duration : Int64) : Except Fault Int64 :=
  if gdd < 0 then .error .assertion
  else if duration < 0 then calculateDecay gdd duration
  else if duration = 0 then .ok gdd
  else if secondsPerYear ≤ duration then
    if 63 < wholeYears duration then .ok 0
    else .ok (applyFactor (halved gdd (wholeYears duration)) (windowFactor (remainder duration)))
  else .ok (applyFactor gdd (windowFactor duration))

/-- A vector of the tests: the value of 100000 units after a second. -/
example : calculateDecay 1000000000 1 = .ok 999999978 := by decide

/-- The longer chain on the largest amount, a year and a second. -/
example : calculateDecayWindowed maxAmount 31556953 = calculateDecay maxAmount 31556953 := by decide

end GrddUnit

end GradidoBlockchain
