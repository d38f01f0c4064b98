import MarkedValues.Unicode.Spans

/-!
General categories. Every code point has exactly one; the table lists the runs of equal category
from zero upwards.
-/
namespace MarkedValues.Unicode

inductive Category where
  | Lu | Ll | Lt | Lm | Lo
  | Mn | Mc | Me
  | Nd | Nl | No
  | Pc | Pd | Ps | Pe | Pi | Pf | Po
  | Sm | Sc | Sk | So
  | Zs | Zl | Zp
  | Cc | Cf | Cs | Co | Cn
  deriving DecidableEq

namespace Category

/-- The letters that stand for the categories in the table, `G` to `Z` and `g` to `p`. -/
def all : List Category :=
  [.Lu, .Ll, .Lt, .Lm, .Lo, .Mn, .Mc, .Me, .Nd, .Nl, .No, .Pc, .Pd, .Ps, .Pe, .Pi, .Pf, .Po,
   .Sm, .Sc, .Sk, .So, .Zs, .Zl, .Zp, .Cc, .Cf, .Cs, .Co, .Cn]

def ofTableLetter (c : Char) : Category :=
  let place := if c.toNat < 'g'.toNat then c.toNat - 'G'.toNat else c.toNat - 'g'.toNat + 20
  all.getD place .Cn

def isLetter (c : Category) : Bool := c matches .Lu | .Ll | .Lt | .Lm | .Lo
def isMark (c : Category) : Bool := c matches .Mn | .Mc | .Me
def isNumber (c : Category) : Bool := c matches .Nd | .Nl | .No
def isPunctuation (c : Category) : Bool := c matches .Pc | .Pd | .Ps | .Pe | .Pi | .Pf | .Po
def isSymbol (c : Category) : Bool := c matches .Sm | .Sc | .Sk | .So
def isSeparator (c : Category) : Bool := c matches .Zs | .Zl | .Zp
def isOther (c : Category) : Bool := c matches .Cc | .Cf | .Cs | .Co | .Cn

end Category

/-- A letter for the category of each run, then the run's length in hexadecimal unless it is one. -/
def categoryTable : List String :=
  ["l20iX3ZX3TUXYXSX2OAX2Y3X2G1ATXUgRgH1ATYUYl21iXZ4hXghKVYmhghYQ2gHX2gQKWQ3XG17YG7H18YH8GHGHGHGHG",
   "HGHGHGHGHGHGHGHGHGHGHGHGHGHGHGHGHGHGHGHGHGHGHGH2GHGHGHGHGHGHGHGH2GHGHGHGHGHGHGHGHGHGHGHGHGHGHG",
   "HGHGHGHGHGHGHGHGHG2HGHGH3G2HGHG2HG3H2G4HG2HG3H3G2HG2HGHGHG2HGH2GHG2HG3HGHG2H2KGH3K4GIHGIHGIHGH",
   "GHGHGHGHGHGHGH2GHGHGHGHGHGHGHGHGH2GIHGHG3HGHGHGHGHGHGHGHGHGHGHGHGHGHGHGHGHGHGHGHGHGHGHGHGHGHGH",
   "GHGHGH7G2HG2H2GHG4HGHGHGHGH45K2H1AJ12g4JCgEJ5g7JgJg11L70GHGHJgGHp2JH3XGp4g2GXG3pGpG2HG11pG9H23",
   "GH2G3H3GHGHGHGHGHGHGHGHGHGHGHGH5GHYGHG2H2G33H30GHGHGHGHGHGHGHGHGHGHGHGHGHGHGHGHGHhL5N2GHGHGHGH",
   "GHGHGHGHGHGHGHGHGHGHGHGHGHGHGHGHGHGHGHGHGHGHGHG2HGHGHGHGHGHGH2GHGHGHGHGHGHGHGHGHGHGHGHGHGHGHGH",
   "GHGHGHGHGHGHGHGHGHGHGHGHGHGHGHGHGHGHGHGHGHGHGHGHGHGHGHGHGHGHGHGHpG26p2JX6H29XSp2h2ZpL2DSLXL2XL",
   "2XLp8K1Bp4K4X2pBm6Y3X2ZX2h2LBXmX3K20JKAL15OAX4K2LK63XKL7mhL6J2L2hL4K2OAK3h2KXEpmKLK1EL1Bp2K59L",
   "BKpEOAK21L9J2hX3Jp2LZ2K16L4JL9JL3JL5p2XFpK19L3p2XpKBp5K18gK7m2p5L9K29JL18mL20MK36LMLKM3L8M4LM2",
   "KL7KAL2X2OAXJKFLM2pK8p2K2p2K16pK7pKp3K4p2LKM3L4p2M2p2M2LKp8Mp4K2pK3L2p2OAK2Z2Q6hZKXLp2L2MpK6p4",
   "K2p2K16pK7pK2pK2pK2p2LpM3L2p4L2p2L3p3Lp7K4pKp7OAL2K3LXpAL2MpK9pK3pK16pK7pK2pK5p2LKM3L5pL2MpM2L",
   "p2KpFK2L2p2OAXZp7KL6pLM2pK8p2K2p2K16pK7pK2pK5p2LKMLML4p2M2p2M2Lp7L2Mp4K2pK3L2p2OAhKQ6pALKpK6p3",
   "K3pK4p3K2pKpK2p3K2p3K3p3KCp4M2LM2p3M3pM3Lp2Kp6MpEOAQ3h6Zhp5LM3LK8pK3pK17pK10p2LKL3M4pL3pL4p7L2",
   "pK3pK2p2K2L2p2OAp7XQ7hKLM2XK8pK3pK17pKApK5p2LKMLM5pLM2pM2L2p7M2p5K3pK2L2p2OApK2MpCL2M2K9pK3pK2",
   "9L2KM3L4pM3pM3LKhp4K3MQ7K3L2p2OAQ9hK6pLM2pK12p3K18pK9pKp2K7p3Lp4M3L3pLpM8p6OAp2M2XpCK30LK2L7p4",
   "ZK6JL8XOAX2p25K2pKpK5pK18pKpKALK2L9Kp2K5pJpL7pOAp2K4p20Kh3XFhXh3L2h6OAQAhLhLhLTUTUM2K8pK24p4LE",
   "ML5XL2K5LBpL24ph8Lh6ph2X5h4X2p25K2BM2L4ML6ML2M2L2KOAX6K6M2L2K4L3KM3K2M7K3L4KDLM2L2M6LKMOAM3Lh2",
   "G26pGp5Gp2H2BXJH3K149pK4p2K7pKpK4p2K29pK4p2K21pK4p2K7pKpK4p2KFpK39pK4p2K43p2L3X9Q14p3K10hAp6G5",
   "6p2H6p2SK26ChXK11iK1ATUp3K4BX3P3K8p7K12L3Mp9K13L2MX2p9K12L2pCKDpK3pL2pCK34L2ML7M8LM2LBX3JX3ZKL",
   "p2OAp6QAp6X6SX4L3mLOAp6K23JK35p7K5L2K22LKp5K46pAK1FpL3M4L2M3p4M2LM6L3p4hp3X2OAK1Ep2K5pBK2Cp4K1",
   "Ap6OAQp3h22K17L2M2Lp2X2K35MLML7pLMLM2L8M6LAp2LOAp6OAp6X7JX6p2LENL1Fp2LCp14L4MK2FLML5MLM5LM2K8p",
   "X2OAX7hAL9h9X3L2MK1EML4M2L2ML3K2OAK2CLML2M3LML3M2p8X4K24M8L8M2L2p3X5OAp3K3OAK1EJ6X2H9GHp5G2Bp2",
   "G3X8p8L3XLDML7K4LK6LK2ML2Kp5H2CJ3FHDJH22J25L40GHGHGHGHGHGHGHGHGHGHGHGHGHGHGHGHGHGHGHGHGHGHGHGH",
   "GHGHGHGHGHGHGHGHGHGHGHGHGHGHGHGHGHGHGHGHGHGHGHGHGHGHGHGHGHGHGHGHGHGHGHGHGHGHGHGHGHGHGHGHGHGHGH",
   "GHGHGHGH9GHGHGHGHGHGHGHGHGHGHGHGHGHGHGHGHGHGHGHGHGHGHGHGHGHGHGHGHGHGHGHGHGHGHGHGHGHGHGHGHGHGHG",
   "HGHGHGHGHGHGH9G8H6p2G6p2H8G8H8G8H6p2G6p2H8pGpGpGpGH8G8HEp2H8I8H8I8H8I8H5pH2G4IgHg3H3pH2G4Ig3H4",
   "p2H2G4pg3H8G5g3p2H3pH2G4Ig2piBm5S6X2VWTV2WTVX8jkm5iX9VWX4R2X3YTUXBYXRXAim5pmAQJp2Q6Y3TUJQAY3TU",
   "pJDp3Z22pELDN4LN3LCpFh2Gh4Gh2HG3H2G3HhGh2YG5h6GhGhGhG4hHG4HK4Hh2H2G2Y5GH4hYh2HhQ10P23GHP4Qh2p4",
   "Y5h5Y2h4Yh2Yh2Yh7Yh1FY2h2YhYh1FY10Ch8TUTUh14Y2h7TUh51Yh1EY19h28Y6h48p16hBp15Q3Ch4EQ16hB7Yh9Yh3",
   "6Y8h6FYhF8TUTUTUTUTUTUTUQ1Eh2CY5TUY1FTUTUTUTUTUY10h100Y83TUTUTUTUTUTUTUTUTUTUTUY3FTUTUY20TUY10",
   "2h30Y15h2Y6h27p2h8AG30H30GHG3H2GHGHGHG4HGH2GH6J2G3HGHGHGHGHGHGHGHGHGHGHGHGHGHGHGHGHGHGHGHGHGHG",
   "HGHGHGHGHGHGHGHGHGHGHGHGHGHGHGHGHGHGHGHGHGHGHGHGHGHGHGH2h6GHGHL3GHp5X4QX2H26pHp5Hp2K38p7JXpELK",
   "17p9K7pK7pK7pK7pK7pK7pK7pK7pL20X2VWVWX3VWXVWX9SX2SXVWX2VWTUTUTUTUX5JXAS2X4SXTXDh2X3TUTUTUTUSp2",
   "2h1Aph59pChD6p1Ah10iX3hJKPTUTUTUTUTUh2TUTUTUTUSTU2hP9L4M2SJ5h2P3JKXh2pK56p2L2g2J2KSK5AXJ3Kp5K2",
   "BpK5Eph2Q4hAK20h26p9hK10h1FpQAh1EQ8hQFh20QAh27QFh140K19C0h40K5215JK477p3h37p9K28J6X2K10CJX3K10",
   "OAK2p14GHGHGHGHGHGHGHGHGHGHGHGHGHGHGHGHGHGHGHGHGHGHGHKLN3XLAXJGHGHGHGHGHGHGHGHGHGHGHGHGHGHJ2L2",
   "K46PAL2X6p8g17J9g2GHGHGHGHGHGHGH3GHGHGHGHGHGHGHGHGHGHGHGHGHGHGHGHGHGHGHGHGHGHGHGHGHGHGHGHGHGHG",
   "HJH8GHGHG2HGHGHGHGHJg2GHGHKGHGH3GHGHGHGHGHGHGHGHGHGHG5HG5HGHGHGHGHGHGHGHG4HGHG2HGHGHGHGHGHGHGH",
   "Gp14J4GHKJ2HK7LK3LK4LK17M2L2Mh4Lp3Q6h2Zhp6K34X4p8M2K32M10L2p8X2OAp6L12K6X3KXK2LOAK1CL8X2K17LBM",
   "2pBXK1Dp3L3MK2FLM2L4M2L2M3XDpJOAp4X2K5LJK9OAK5pK29L6M2L2M2L2p9K3LK8LMp2OAp2X4K10JK6h3KMLMK32LK",
   "L3K2L2K5L2KLKp18K2JX2KBML2M2X2KJ2MLpAK6p2K6p2K6p9K7pK7pH2BgJ4H9Jg2p4H50K23M2LM2LM2XMLp2OAp6K2B",
   "A4pCK17p4K31p4n800o1900K16Ep2K6Ap26H7pCH5p5KLKAYKDpK5pKpK2pK2pK6Cg11h10K16BUTh10K40h2K36h8p20K",
   "CZh3L10X7TUXp6L10XS2R2TUTUTUTUTUTUTUTUX2TUX4R3X3pX4STUTUTUX3YSY3pXZX2p4K5pK87p2mpX3ZX3TUXYXSX2",
   "OAX2Y3X2G1ATXUgRgH1ATYUYTUXTUX2KAJK2DJ2K1Fp3K6p2K6p2K6p2K3p3Z2YghZ2phY4h2pAm3h2p2KCpK1ApK13pK2",
   "pKFp2KEp22K7Bp5X3p4Q2Dp3h9P35Q4h11Q2h3phDp3hp2Fh2DLp82K1Dp3K31pFLQ1Bp4K20Q4p9K14PK8Pp5K26L5p5K",
   "1EpXK24p4K8XP5p2AG28H28K4Ep2OAp6G24p4H24p4K28p8K34pBXGBpGFpG7pG2pHBpHFpH7pH2p3K34pCK137p9K16pA",
   "K8p18J6pJ2ApJ9p45K6p2KpK2CpK2p3Kp2K17pXQ8K17h2Q7K1Fp8Q9p30K13pK2p5Q5K16Q6p3XK1Ap5XK1Ap26K38p4Q",
   "2K2Q10p2Q2EKL3pL2p5L4K4pK3pK1Dp2L3p4LQ9p7X9p7K1DQ2XK1DQ3p20K8hK1CL2p4Q5X7p9K36p3X7K16p2Q8K13p5",
   "Q8K12p7X4pCQ7p50K49p37G33pDH33p7Q6K24L4p8OAp6OAK4JKG16p3L5SJH16p8Y2pD0Q1FpK2ApL2Sp2K2p10K3JK2p",
   "8Xh8p21L6K1DQAKp8K16LBQ4X5p16K12L4X4p26K15Q7p14K17p9MLMK35LFX7p4Q14OALK2L2Kp9L3MK2DM3L4M2L2X2m",
   "X4LpAmp2K19p7OAp6L3K24L5ML8pOAX4KM2Kp8K23LX2Kp9L2MK30M3L9M2K4X4L4XMLOAKXKX3pQ14pBK12pK19M3L3M2",
   "LML2X6LK2Lp3EK7pKpK4pKFpKAXp6K2FLM3L8p5OAp6L2M2pK8p2K2p2K16pK7pK2pK5pL2KM2LM4p2M2p2M3p2Kp6Mp5K",
   "5M2p2L7p3L5pBKApKp2KpK26pKM3L6pMp2MpM4pM2LMLKLKX2pX2p8L2p1DK35M3L8M2L3MLK4X5OAX2pXLK3p1EK30M3L",
   "6MLM4L2ML2K2XKp8OApA6K2FM3L4p2M4L2ML2X17K4L2p22K30M3L8M2LML2X3KpBOAp6XDp13K2BLMLM2L6MLKXp6OAp6",
   "O14p1CK1Bp2LMLM2L4ML5p4OAQ2X3hK7pB9K2CM3L9ML2Xp64G20H20OAQ9pCK8p2Kp2K8pK2pK18M6pM2p2L2MLKMKMLX",
   "3p9OAp46K8p2K27M3L4p2L2M4LKXKMp1BKLAK28L6MKL4X8Lp8KL6M2L3K2ELDML2X3KX5pDK49p7XAp56LML3MLMp58K2",
   "1XpEOAp6K9pK25ML7pL6MLKX5pAOAQ13p3X2K1Ep2L16pML7ML2ML2p49K7pK2pK26L6p3LpL2pL7KLp8OAp6K6pK2pK20",
   "M5pL2pM2LMLKp7OAp6K29JK2p4OApF6K13L2M2X2p7L2KMKDpK22M2L5p3M2LMLXDOALp55KpFQ15h8Z4h11pDXK39Ap66",
   "P6FpX5pBKC4pA4CK61X2pDK430m10LK6LFpAKF9Bp5K247p1AB9K1ELCM3L3OAp6C6K239p7K1FpOAp4X2K4FpOAp6K1Ep",
   "2L5XpAK30L7X5h4J4XhpAOApQ7pK15p5K13p1B0J3K28J2X3OApC6G20H20Q17X4p5G19p2H19p2CK4Bp4LKM37p7L4JDp",
   "40J2XJLpBM2J2P3p9K1CD6p29K20p61K73p21FDJ4pJ7pJ2pK123pFKp1DK3p2KpEK4p8K18Cp904K6Bp5KDp3K9p7KAp2",
   "hL2Xm4pF5ChF0OAh3p3h1B4p6h17pFh10YpFL2Ep2L17p9h74p3ChF6pAh27p2h3CM2L3h3M6m8L8h2L7h1EL4h3Dp15h4",
   "2L3hp7AQ14pCQ14pCh57p9Q19p87G1AH1AG1AH7pH12G1AH1AGpG2p2Gp2G2p2G4pG8H4pHpH7pHBG1AH1AG2pG4p2G8pG",
   "7pH1AG2pG4pG5pGp3G7pH1AG1AH1AG1AH1AG1AH1AG1AH1AG1AH1AG1AH1Cp2G19YH19YH6G19YH19YH6G19YH19YH6G19",
   "YH19YH6G19YH19YH6GHp2O32h200L37h4L32h8LhELh2X5pFL5pLFp450HAKH14p6H6pD5L7pL11p2L7pL2pL5p5J3Ep21",
   "Lp70K2Dp3L7J7p2OAp4Khp140K1ELp11K2CL4OAp5Zp1D0K1BJL4OApD6K1EL2KOAp4XpC0K1FpK3LK2LK7L2K5Lp8KJpE",
   "0K7pK4pK2pKFpKC5p2Q9L7p29G22H22L7Jp4OAp4X2p311Q3BhQ3ZQ4p4CQ2DhQFpC2K4pK1BpK2pKp2KpKApK4pKpKp6K",
   "p4KpKpKpK3pK2pKp2KpKpKpKpKpK2pKp2K4pK7pK4pK4pKpKApK11p5K3pK5pK11p34Y2p10Eh2Cp4h64pChFp2hFphFph",
   "25pAQDhA1p38h1DpDh2Cp4h9p7h2pEh6p9AhFBg5h2D9p3h11p3hDp3hDAp6hCp4hpFhCp4h38p8hAp6h28p8h1Ep2hCp4",
   "h2pEY9p27h158p8hEp2hDp3hBp3h39php4h10p2hCp4hAp7h93ph5COAhp405KA6E0p20K111Ep2K168Ep2K1D31pFK26E",
   "p9A2K21Ep5E2K134Bp5K212ApACB87mp1Em60p80LF0pFE10oFFFEp2oFFFEp2"]

/-- The first code point of each run and the run's category. -/
def categoryRuns : Array (Nat × Category) :=
  let step := fun (state : Array (Nat × Category) × Nat × Nat) (c : Char) =>
    let (runs, next, length) := state
    if Text.isDigitOf 16 c then (runs, next, length * 16 + Text.digitValue c)
    else
      let start := next + if length == 0 then 1 else length
      (runs.push (start, .ofTableLetter c), start, 0)
  match categoryTable.flatMap String.toList with
  | [] => #[]
  | c :: cs => (cs.foldl step (#[(0, .ofTableLetter c)], 0, 0)).1

/-- The last run that starts at or before `n` among those from `low` to below `high`. -/
def findRun (n low high : Nat) : Nat → Category
  | 0 => .Cn
  | fuel + 1 =>
    if high ≤ low + 1 then ((categoryRuns[low]?).map Prod.snd).getD .Cn
    else
      let middle := (low + high) / 2
      match categoryRuns[middle]? with
      | some (start, _) => if start ≤ n then findRun n middle high fuel else findRun n low middle fuel
      | none => .Cn

def category (c : Char) : Category := findRun c.toNat 0 categoryRuns.size 32

end MarkedValues.Unicode
