/-
  Ferry.Text.LetterCase

  Capital and small letters, by the Unicode properties Uppercase and Lowercase, and the full upper
  case mapping, under which one letter may become several.
-/
import Ferry.Text.Run

namespace Ferry.Text

/-- Characters with the property Uppercase. -/
def uppercaseRuns : List Run :=
  chain 1 0
    [65,25,102,22,2,6,154,1,2,0,2,0,4,1,2,0,2,1,2,2,3,3,2,1,2,2,4,1,2,1,2,0,2,0,2,1,2,0,3,0,2,1,2,2,
     2,0,2,1,4,0,8,0,3,0,3,0,39,0,3,0,2,2,66,1,2,1,3,0,2,3,298,0,2,0,4,0,9,0,7,0,2,2,2,0,2,1,2,16,2,
     8,36,0,3,2,32,0,3,0,2,1,3,50,145,1,112,37,2890,37,2,0,6,0,723,85,2196,0,7,42,3,2,585,7,9,5,11,
     7,9,7,9,5,27,7,73,3,13,3,13,3,13,4,12,3,263,0,5,0,4,2,3,2,3,0,4,4,13,3,3,3,11,1,6,0,27,15,20,0,
     819,25,1841,47,49,0,2,2,9,3,2,0,3,0,9,2,107,0,2,0,5,0,31367,0,2,0,2,1,13,0,2,0,3,0,2,0,24,4,2,
     4,16,3,2,0,2,1,41,0,22316,25,1222,39,137,35,157,10,2,14,2,6,2,1,1771,50,158,21,2875,31,21889,
     31,65,24,25928,25,27,25,27,25,27,0,2,1,3,0,3,1,3,3,2,7,27,25,27,1,2,3,3,7,2,6,28,1,2,3,2,4,2,0,
     4,6,28,25,27,25,27,25,27,25,27,25,27,25,31,24,34,24,34,24,34,24,34,24,34,0,4406,33,2063,25,7,
     25,7,25] ++
  chain 2 0
    [256,54,3,14,3,44,87,14,3,16,12,56,22,6,394,22,114,32,10,52,5,10,3,94,6354,148,10,96,91,6,453,4,
     2879,4,23,96,31070,44,20,26,136,12,4,60,18,6,16,18,14,12,12,14]

/-- Characters with the property Lowercase. -/
def lowercaseRuns : List Run :=
  chain 1 0
    [97,25,48,0,11,0,5,0,37,23,2,7,56,1,16,1,49,0,2,0,2,2,3,0,2,0,3,0,4,1,5,0,3,0,4,2,3,0,10,0,2,1,
     2,0,3,0,4,0,2,0,3,1,3,2,7,0,3,0,19,1,18,1,3,0,2,0,62,6,3,0,3,1,2,0,13,68,3,34,8,1,31,4,97,0,44,
     0,2,0,4,0,3,3,19,0,28,34,2,1,4,2,24,4,2,0,3,0,3,1,52,47,111,1,145,40,2888,42,2,3,761,5,2179,8,
     2,0,118,191,214,8,98,8,9,5,11,7,9,7,9,5,11,7,9,7,9,13,3,7,9,7,9,7,9,4,2,1,7,0,4,2,2,1,9,3,3,1,
     9,7,11,2,2,1,122,0,14,0,17,12,110,0,4,1,4,0,28,0,5,0,5,0,3,1,9,3,5,0,34,15,5,0,844,25,1863,47,
     2,0,4,1,11,0,2,1,2,7,102,1,8,0,2,0,5,0,13,37,2,0,6,0,31086,2,146,2,62,9,2,0,2,0,16,0,2,0,3,0,2,
     2,26,0,25,0,2,0,39,3,2,0,2,2,822,42,2,13,7,79,20289,6,13,4,1066,25,1230,39,137,35,156,10,2,14,
     2,6,2,1,452,0,3,2,2,41,2,8,1286,50,126,21,2875,31,21889,31,60,24,25927,25,27,6,2,17,27,25,27,3,
     2,0,2,6,2,10,27,25,27,25,27,25,27,25,27,25,27,25,27,25,27,25,27,27,29,24,2,5,27,24,2,5,27,24,2,
     5,27,24,2,5,27,24,2,5,2,0,1845,9,2,19,7,5,262,61,2229,33] ++
  chain 2 0
    [257,52,5,12,5,44,42,4,39,14,5,14,12,56,22,6,396,20,116,32,10,52,3,10,5,94,6354,146,12,94,3435,
     4,21,96,31072,44,20,24,138,10,6,58,18,8,16,18,12,14,10,14]

/-- A run of letters whose capitals stand at one distance, given by the capital of the first. -/
structure CaseRun where
  letters : Run
  capital : Nat

/-- Runs by distances as in `chain`, each followed by the capital of its first letter. -/
def caseChain (step : Nat) : (point : Nat) → List Nat → List CaseRun
  | point, gap :: reach :: capital :: rest =>
    ⟨⟨point + gap, point + gap + reach, step⟩, capital⟩ ::
      caseChain step (point + gap + reach) rest
  | _, _ => []

/-- Letters whose capital form is one character. -/
def capitalRuns : List CaseRun :=
  caseChain 1 0
    [97,25,65,59,0,924,43,22,192,2,6,216,1,0,376,50,0,73,78,0,83,1,0,579,8,0,391,4,0,395,6,0,401,3,
     0,502,4,0,408,1,0,573,1,0,42972,3,0,544,10,0,423,5,0,428,3,0,431,9,0,440,4,0,444,2,0,503,6,0,
     452,1,0,452,2,0,455,1,0,455,2,0,458,1,0,458,17,0,398,21,0,497,1,0,497,2,0,500,71,0,571,3,1,
     11390,2,0,577,14,0,11375,1,0,11373,1,0,11376,1,0,385,1,0,390,2,1,393,2,0,399,2,0,400,1,0,42923,
     4,0,403,1,0,42924,2,0,404,1,0,42955,1,0,42893,1,0,42922,2,0,407,1,0,406,1,0,42926,1,0,11362,1,
     0,42925,3,0,412,2,0,11374,1,0,413,3,0,415,8,0,11364,3,0,422,2,0,42949,1,0,425,4,0,42929,1,0,
     430,1,0,580,1,1,433,1,0,581,6,0,439,11,0,42930,1,0,42928,167,0,921,50,0,886,4,2,1021,47,0,902,
     1,2,904,2,16,913,1,0,931,1,8,931,1,0,908,1,1,910,2,0,914,1,0,920,4,0,934,1,0,928,1,0,975,25,0,
     922,1,0,929,1,0,1017,1,0,895,2,0,917,3,0,1015,3,0,1018,53,31,1040,1,15,1024,112,0,1216,146,37,
     1329,2890,42,7312,3,2,7357,761,5,5104,2179,0,1042,1,0,1044,1,0,1054,1,1,1057,1,0,1058,1,0,1066,
     1,0,1122,1,0,42570,2,0,7305,239,0,42877,4,0,11363,17,0,42950,269,0,7776,101,7,7944,9,5,7960,11,
     7,7976,9,7,7992,9,5,8008,27,7,8040,9,1,8122,1,3,8136,1,1,8154,1,1,8184,1,1,8170,1,1,8186,51,1,
     8120,13,0,921,18,1,8152,15,1,8168,4,0,8172,361,0,8498,34,15,8544,5,0,8579,844,25,9398,1863,47,
     11264,2,0,11360,4,0,570,1,0,574,13,0,11378,3,0,11381,125,0,11506,13,37,4256,2,0,4295,6,0,4301,
     31327,0,42891,8,0,42948,98,0,42997,861,0,42931,29,79,5024,21378,25,65313,1230,39,66560,137,35,
     66736,156,10,66928,2,14,66940,2,6,66956,2,1,66964,1796,50,68736,126,21,68944,2875,31,71840,
     21889,31,93760,60,24,93856,31311,33,125184] ++
  caseChain 2 0
    [257,46,256,4,4,306,3,14,313,3,44,330,3,4,377,5,2,386,28,4,416,15,2,435,24,14,461,3,16,478,10,
     38,504,4,16,546,20,8,582,290,2,880,102,22,984,114,32,1120,10,52,1162,3,12,1217,3,94,1232,6354,
     148,7680,12,94,7840,82,6,8025,3345,4,11367,21,98,11392,9,2,11499,31059,44,42560,20,26,42624,
     136,12,42786,4,60,42802,11,2,42873,3,8,42878,10,2,42896,4,18,42902,12,14,42932,5,2,42951,3,14,
     42956]

/-- Greek letters with an iota below: their capital form is the plain capital and an iota. -/
def iotaSequences : List (Nat × List Nat) :=
  [(8064, 7944), (8080, 7976), (8096, 8040)].flatMap fun (letter, capital) =>
    (List.range 16).map fun i => (letter + i, [capital + i % 8, 921])

/-- Letters whose capital form is several characters. -/
def capitalSequences : List (Nat × List Nat) := iotaSequences ++
  [(223, [83, 83]), (329, [700, 78]), (496, [74, 780]), (912, [921, 776, 769]),
   (944, [933, 776, 769]), (1415, [1333, 1362]), (7830, [72, 817]), (7831, [84, 776]),
   (7832, [87, 778]), (7833, [89, 778]), (7834, [65, 702]), (8016, [933, 787]),
   (8018, [933, 787, 768]), (8020, [933, 787, 769]), (8022, [933, 787, 834]), (8114, [8122, 921]),
   (8115, [913, 921]), (8116, [902, 921]), (8118, [913, 834]), (8119, [913, 834, 921]),
   (8124, [913, 921]), (8130, [8138, 921]), (8131, [919, 921]), (8132, [905, 921]),
   (8134, [919, 834]), (8135, [919, 834, 921]), (8140, [919, 921]), (8146, [921, 776, 768]),
   (8147, [921, 776, 769]), (8150, [921, 834]), (8151, [921, 776, 834]), (8162, [933, 776, 768]),
   (8163, [933, 776, 769]), (8164, [929, 787]), (8166, [933, 834]), (8167, [933, 776, 834]),
   (8178, [8186, 921]), (8179, [937, 921]), (8180, [911, 921]), (8182, [937, 834]),
   (8183, [937, 834, 921]), (8188, [937, 921]), (64256, [70, 70]), (64257, [70, 73]),
   (64258, [70, 76]), (64259, [70, 70, 73]), (64260, [70, 70, 76]), (64261, [83, 84]),
   (64262, [83, 84]), (64275, [1348, 1350]), (64276, [1348, 1333]), (64277, [1348, 1339]),
   (64278, [1358, 1350]), (64279, [1348, 1341])]

def isUppercase (c : Char) : Bool :=
  if c.toNat < 128 then c.isUpper else memberOf uppercaseRuns c

def isLowercase (c : Char) : Bool :=
  if c.toNat < 128 then c.isLower else memberOf lowercaseRuns c

/-- The capital form of a character; a character without one is its own. -/
def capitals (c : Char) : List Char :=
  if c.toNat < 128 then [c.toUpper]
  else match capitalSequences.lookup c.toNat with
    | some points => points.map Char.ofNat
    | none =>
      match capitalRuns.find? (·.letters.holds c.toNat) with
      | some run => [Char.ofNat (run.capital + (c.toNat - run.letters.first))]
      | none => [c]

end Ferry.Text
