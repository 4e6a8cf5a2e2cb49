/-! The exported biases of the fourth layer, as one line of text. -/

namespace WeightTables

def biasText : String :=
  "-0.1326, -0.2092, -0.2121, -0.1416, -0.2045, -0.2161, -0.2601, -0.0998, -0.1124, -0.0799, " ++
    "-0.2167, -0.1787, 0.0070, -0.1391, -0.1298, -0.1411, -0.0910, -0.1364, -0.0433, -0.1804, " ++
    "-0.1886, -0.1896, -0.2016, -0.1947, -0.1379, -0.0252, -0.0635, 0.0984, -0.1527, -0.0968, " ++
    "-0.1649, -0.1321, -0.1358, -0.1319, -0.0695, -0.0677, -0.0952, -0.1008, -0.0247, -0.2302, " ++
    "-0.0603, -0.1063, -0.0666, -0.1769, -0.0679, -0.1644, -0.0869, -0.2376, -0.2032, -0.2634, " ++
    "-0.1487, -0.0441, -0.0786, -0.1214, -0.0746, -0.1626, -0.0906, -0.0844, 0.0086, -0.1645, " ++
    "-0.1422, -0.1091, -0.2137, -0.2501, -0.0069, -0.2051, -0.0713, -0.1181, -0.1385, -0.0278, " ++
    "-0.0297, -0.0958, -0.0898, 0.0206, -0.1141, -0.1261, -0.2135, -0.1169, -0.0247, -0.1346, " ++
    "-0.2172, -0.1054, -0.1447, -0.0642, -0.1364, -0.1780, -0.0059, -0.1047, -0.0765, -0.1538, " ++
    "-0.0689, -0.1119, -0.2540, -0.0988, -0.0540, -0.1653, 0.0129, -0.1750, -0.0628, -0.1074, " ++
    "-0.1850, -0.2101, -0.2290, -0.0841, -0.2285, -0.0995, -0.2102, -0.1037, -0.1851, -0.1164, " ++
    "-0.0167, -0.1352, -0.1288, -0.0778, -0.1216, -0.1592, -0.1176, -0.1091, -0.1878, -0.1686, " ++
    "-0.1777, -0.1279, -0.1160, -0.2089, -0.0585, -0.0334, -0.1846, -0.1948, -0.1588, -0.0880, " ++
    "-0.1588, -0.1495, -0.1278, -0.0182, -0.1386, -0.1104, -0.0687, -0.1702, -0.2141, -0.2277, " ++
    "-0.1559, -0.0850, -0.1378, -0.1005, -0.1828, -0.2076, -0.0049, -0.1465, -0.1062, -0.1167, " ++
    "-0.0380, -0.1259, -0.1127, -0.1061, -0.2068, 0.0411, -0.0978, -0.0765, -0.0226, -0.1240, " ++
    "-0.1099, -0.1185, -0.0833, -0.1133, -0.1747, -0.0091, -0.1372, -0.0939, -0.1557, -0.1648, " ++
    "-0.1263, -0.0326, -0.1944, -0.1816, 0.0059, -0.1009, -0.1474, -0.1396, -0.0269, -0.1183, " ++
    "-0.0893, -0.0275, -0.1459, -0.1519, -0.0750, -0.0417, -0.0747, -0.1943, -0.1811, -0.2460, " ++
    "0.0063, -0.0966, -0.3029, -0.0626, -0.1517, -0.0471, -0.1599, -0.1057, -0.2611, -0.1744, " ++
    "-0.0825, -0.0502, -0.0937, -0.1880, -0.0335, -0.2561, -0.1768, -0.0460, -0.0946, -0.2273, " ++
    "-0.1002, -0.1597, -0.2112, -0.1022, -0.1336, -0.2578, -0.0447, -0.2451, -0.1326, -0.1242, " ++
    "-0.1280, -0.2598, -0.0506, -0.1412, -0.1960, -0.1344, -0.1124, -0.0698, -0.1699, -0.1816, " ++
    "-0.0484, -0.1767, 0.0985, -0.0996, -0.0471, -0.2042, -0.1190, -0.1257, -0.1852, -0.1945, " ++
    "-0.1208, -0.1091, -0.0448, -0.0754, -0.1580, -0.1866, -0.1895, -0.1033, -0.0454, -0.0878, " ++
    "-0.0470, -0.2538, -0.1369, -0.1184, -0.1805, -0.0721\n"

end WeightTables
